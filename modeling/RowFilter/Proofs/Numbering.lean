import RowFilter.Proofs.RoundTrip
import RowFilter.Proofs.ValueSets

/-!
# The numbers of parameters

Numbering goes through the comparisons from left to right with one counter for each shape. Where
a counter stands is a sum: it starts above the numbers that the shape carries anywhere in the
filter and has moved on by the occurrences passed since, but never beyond the last number. From
this one can read off what every parameter becomes, and when two of them become one: exactly
where a counter has too few numbers left.
-/

namespace RowFilter

/-- The last number. -/
def lastId : Nat := UInt32.size - 1

theorem toNat_le_lastId (id : UInt32) : id.toNat ≤ lastId := by
  have hlt : id.toNat < UInt32.size := id.toNat_lt
  unfold lastId
  omega

/-- A count that is capped at the last number is a number. -/
theorem toNat_ofNat_min_lastId (n : Nat) : (UInt32.ofNat (min n lastId)).toNat = min n lastId := by
  have hlt : min n lastId < UInt32.size := by
    have hle : min n lastId ≤ lastId := Nat.min_le_right _ _
    have hlast : lastId < UInt32.size := by decide
    omega
  exact UInt32.toNat_ofNat_of_lt' hlt

theorem ofNat_min_toNat (id : UInt32) : UInt32.ofNat (min id.toNat lastId) = id := by
  rw [Nat.min_eq_left (toNat_le_lastId id)]
  exact UInt32.ofNat_toNat

/-- The next number is greater by one, except that the last has none after it. -/
theorem toNat_nextId (id : UInt32) : (nextId id).toNat = min (id.toNat + 1) lastId := by
  have hle := toNat_le_lastId id
  unfold nextId
  by_cases h : id = UInt32.ofNat (UInt32.size - 1)
  · rw [if_pos h, h]
    decide
  · rw [if_neg h]
    have hne : id.toNat ≠ lastId := by
      intro hlast
      apply h
      rw [← UInt32.ofNat_toNat (x := id), hlast]
      rfl
    have hlt : id.toNat + 1 < UInt32.size := by
      have hsize : UInt32.size = lastId + 1 := by decide
      omega
    rw [UInt32.toNat_add, Nat.min_eq_left (by omega)]
    exact Nat.mod_eq_of_lt hlt

/-! ## Numbers of a shape -/

/-- The number of a parameter, if it has one. -/
def Operand.id? : Operand → Option Nat
  | .bound id => some id.toNat
  | _ => none

namespace Shape

variable {s : Shape} {l : Leaf} {leaves : List Leaf}

/-- The number that the comparison carries, if it is of the shape. -/
def numberOf (s : Shape) (l : Leaf) : Option Nat :=
  if l.shape = s then l.operand.id? else none

/-- A comparison has a number in its own shape only, and only if it is bound. -/
theorem numberOf_eq_some {n : Nat} :
    s.numberOf l = some n ↔ l.shape = s ∧ ∃ id, l.operand = .bound id ∧ id.toNat = n := by
  unfold numberOf
  rw [Option.ite_none_right_eq_some]
  refine and_congr_right fun _ => ?_
  cases l.operand with
  | unbound | constant => simp [Operand.id?]
  | bound id => simp [Operand.id?]

/-- Over one entity, shape and number determine the comparison. -/
theorem eq_of_numberOf {k : Leaf} {n : Nat} (hk : s.numberOf k = some n)
    (hl : s.numberOf l = some n) (hentity : k.entity = l.entity) : k = l := by
  obtain ⟨hs, id, hid, hn⟩ := numberOf_eq_some.1 hk
  obtain ⟨hs', id', hid', hn'⟩ := numberOf_eq_some.1 hl
  have hsame : id = id' := UInt32.toNat_inj.1 (hn.trans hn'.symm)
  cases k
  cases l
  simp_all

/-- The least number above all that comparisons of the shape carry; zero if they carry none. -/
def firstFree (s : Shape) (leaves : List Leaf) : Nat :=
  match (leaves.filterMap s.numberOf).max? with
  | none => 0
  | some m => m + 1

/-- How many comparisons are of the shape and have a parameter without a number. -/
def pending (s : Shape) (leaves : List Leaf) : Nat :=
  leaves.countP fun l => l.shape = s ∧ l.operand = .unbound

/-- The first free number is behind all that the comparisons have. -/
theorem firstFree_cons (s : Shape) (l : Leaf) (leaves : List Leaf) :
    s.firstFree (l :: leaves) = max ((s.numberOf l).elim 0 (· + 1)) (s.firstFree leaves) := by
  unfold firstFree
  cases hl : s.numberOf l with
  | none =>
    rw [List.filterMap_cons_none hl]
    exact (Nat.zero_max _).symm
  | some n =>
    rw [List.filterMap_cons_some hl, List.max?_cons]
    cases (leaves.filterMap s.numberOf).max? with
    | none => exact (Nat.max_zero _).symm
    | some m => exact (Nat.succ_max_succ n m).symm

/-- All numbers in use are below the first free one. -/
theorem lt_firstFree {n : Nat} (hl : l ∈ leaves) (hn : s.numberOf l = some n) :
    n < s.firstFree leaves := by
  induction leaves with
  | nil => exact nomatch hl
  | cons k leaves ih =>
    rw [firstFree_cons]
    rcases List.mem_cons.1 hl with rfl | hl
    · rw [hn]
      exact Nat.lt_of_lt_of_le (Nat.lt_succ_self n) (Nat.le_max_left _ _)
    · exact Nat.lt_of_lt_of_le (ih hl) (Nat.le_max_right _ _)

/-- If there are numbers below the first free one, the next one below is carried. -/
theorem exists_numberOf {n : Nat} (h : s.firstFree leaves = n + 1) :
    ∃ l ∈ leaves, s.numberOf l = some n := by
  induction leaves with
  | nil => exact nomatch h
  | cons l leaves ih =>
    rw [firstFree_cons] at h
    by_cases hrest : s.firstFree leaves = n + 1
    · obtain ⟨k, hk, hn⟩ := ih hrest
      exact ⟨k, List.mem_cons_of_mem _ hk, hn⟩
    · cases hl : s.numberOf l with
      | none =>
        rw [hl, Option.elim_none] at h
        omega
      | some m =>
        rw [hl, Option.elim_some] at h
        obtain rfl : m = n := by omega
        exact ⟨l, List.mem_cons_self, hl⟩

/-- The first free number is at most the one behind the last. -/
theorem firstFree_le_size (s : Shape) (leaves : List Leaf) :
    s.firstFree leaves ≤ UInt32.size := by
  cases h : s.firstFree leaves with
  | zero => exact Nat.zero_le _
  | succ n =>
    obtain ⟨l, -, hn⟩ := exists_numberOf h
    obtain ⟨-, id, -, rfl⟩ := numberOf_eq_some.1 hn
    exact id.toNat_lt

@[simp] theorem pending_nil (s : Shape) : s.pending [] = 0 := rfl

theorem pending_singleton (s : Shape) (l : Leaf) :
    s.pending [l] = if l.shape = s ∧ l.operand = .unbound then 1 else 0 := by
  unfold pending
  rw [List.countP_singleton]
  simp only [decide_eq_true_eq]

/-- Unbound comparisons are counted piece by piece. -/
theorem pending_append (s : Shape) (front back : List Leaf) :
    s.pending (front ++ back) = s.pending front + s.pending back :=
  List.countP_append

/-- A pending comparison counts for all that is behind it. -/
theorem pending_take_lt {m n : Nat} (hl : leaves[m]? = some l) (hs : l.shape = s)
    (hu : l.operand = .unbound) (h : m < n) :
    s.pending (leaves.take m) < s.pending (leaves.take n) :=
  countP_take_lt hl (decide_eq_true ⟨hs, hu⟩) h

/-- In front of an unbound comparison there are fewer than in all. -/
theorem pending_take_lt_pending {m : Nat} (hl : leaves[m]? = some l) (hs : l.shape = s)
    (hu : l.operand = .unbound) : s.pending (leaves.take m) < s.pending leaves := by
  obtain ⟨hlt, -⟩ := List.getElem?_eq_some_iff.1 hl
  have h := pending_take_lt hl hs hu hlt
  rwa [List.take_length] at h

/-- Among the pending comparisons of a shape there is one with any smaller number of them in front
of it. -/
theorem exists_pending {j : Nat} (h : j < s.pending leaves) :
    ∃ n l, leaves[n]? = some l ∧ l.shape = s ∧ l.operand = .unbound ∧
      s.pending (leaves.take n) = j := by
  unfold pending at h
  rw [List.countP_eq_length_filter] at h
  obtain ⟨n, hn, hl, hj⟩ := getElem?_filter_eq_some.1 (List.getElem?_eq_getElem h)
  obtain ⟨hs, hu⟩ := of_decide_eq_true hl
  exact ⟨n, _, hn, hs, hu, hj⟩

end Shape

/-! ## Where the counters stand -/

namespace Counters

variable (counters : Counters) (s : Shape)

/-- Setting the counter of a shape leaves those of other shapes alone. -/
theorem next_insert (t : Shape) (id : UInt32) :
    next (counters.insert t id) s = if t = s then id else counters.next s := by
  unfold next
  rw [Std.HashMap.getD_insert]
  simp only [beq_iff_eq]

/-- A counter moves behind the number of a comparison of its shape, and never back. -/
theorem toNat_next_skipPast (l : Leaf) :
    ((counters.skipPast l).next s).toNat =
      max (counters.next s).toNat (min ((s.numberOf l).elim 0 (· + 1)) lastId) := by
  unfold skipPast Shape.numberOf
  by_cases hs : l.shape = s
  · rw [if_pos hs]
    cases l.operand with
    | unbound | constant => exact (Nat.max_eq_left (Nat.zero_le _)).symm
    | bound id =>
      show (next (counters.insert l.shape (max (counters.next l.shape) (nextId id))) s).toNat = _
      rw [next_insert, if_pos hs, hs, UInt32.toNat_max, toNat_nextId]
      rfl
  · rw [if_neg hs]
    cases l.operand with
    | unbound | constant => exact (Nat.max_eq_left (Nat.zero_le _)).symm
    | bound id =>
      show (next (counters.insert l.shape (max (counters.next l.shape) (nextId id))) s).toNat = _
      rw [next_insert, if_neg hs]
      exact (Nat.max_eq_left (Nat.zero_le _)).symm

/-- Behind all the comparisons it stands at the first free number, unless it was further. -/
theorem toNat_next_foldl (leaves : List Leaf) :
    ((leaves.foldl skipPast counters).next s).toNat =
      max (counters.next s).toNat (min (s.firstFree leaves) lastId) := by
  induction leaves generalizing counters with
  | nil => exact (Nat.max_eq_left (Nat.zero_le _)).symm
  | cons l leaves ih =>
    rw [List.foldl_cons, ih, toNat_next_skipPast, Shape.firstFree_cons]
    omega

/-- The counters start at the first free number of each shape, or at the last number there is. -/
theorem toNat_next_above (leaves : List Leaf) :
    ((above leaves).next s).toNat = min (s.firstFree leaves) lastId := by
  have hzero : (next (∅ : Counters) s).toNat = 0 := by
    unfold next
    rw [Std.HashMap.getD_empty]
    rfl
  unfold above
  rw [toNat_next_foldl, hzero, Nat.zero_max]

end Counters

/-! ## What parameters become -/

namespace Leaf

/-- The comparison with `n` for the number of its parameter, if that has none yet; beyond the last
number it takes the last. -/
def numbered (n : Nat) (l : Leaf) : Leaf :=
  if l.operand = .unbound then { l with operand := .bound (UInt32.ofNat (min n lastId)) } else l

theorem numbered_of_unbound {l : Leaf} (h : l.operand = .unbound) (n : Nat) :
    l.numbered n = { l with operand := .bound (UInt32.ofNat (min n lastId)) } :=
  if_pos h

theorem numbered_of_ne {l : Leaf} (h : l.operand ≠ .unbound) (n : Nat) : l.numbered n = l :=
  if_neg h

@[simp] theorem entity_numbered (n : Nat) (l : Leaf) : (l.numbered n).entity = l.entity := by
  unfold numbered
  split <;> rfl

@[simp] theorem shape_numbered (n : Nat) (l : Leaf) : (l.numbered n).shape = l.shape := by
  unfold numbered
  split <;> rfl

/-- Whether it is cut off at the last number before counting on makes no difference. -/
theorem numbered_min_add (m n : Nat) (l : Leaf) :
    l.numbered (min m lastId + n) = l.numbered (m + n) := by
  have hmin : min (min m lastId + n) lastId = min (m + n) lastId := by omega
  unfold numbered
  rw [hmin]

end Leaf

namespace Filter

/-- Without numbers, the numbered filter is the filter. -/
theorem unnumbered_number (counters : Counters) (f : Filter) :
    (f.number counters).1.unnumbered = f.unnumbered := by
  induction f generalizing counters with
  | opened | closed => rfl
  | compare l =>
    obtain ⟨entity, shape, operand⟩ := l
    cases operand <;> rfl
  | existence e c negated sub ih => exact congrArg (existence e c negated) (ih counters)
  | junction e kind left right ihl ihr =>
    rw [number, unnumbered, ihl, ihr]
    rfl

/-- Taking the numbers away takes them from each comparison. -/
theorem leaves_unnumbered (f : Filter) : f.unnumbered.leaves = f.leaves.map Leaf.unnumbered := by
  induction f with
  | opened | closed | compare => rfl
  | existence e c negated sub ih => exact ih
  | junction e kind left right ihl ihr =>
    rw [unnumbered, leaves_junction, leaves_junction, List.map_append, ihl, ihr]

/-- Filters that are alike but for numbers have as many comparisons. -/
theorem length_leaves_eq {f g : Filter} (h : f.unnumbered = g.unnumbered) :
    f.leaves.length = g.leaves.length := by
  rw [← List.length_map Leaf.unnumbered, ← leaves_unnumbered, h, leaves_unnumbered,
    List.length_map]

/-- A filter is known from what it is without numbers and from its comparisons. -/
theorem eq_of_unnumbered_eq {f g : Filter} (h : f.unnumbered = g.unnumbered)
    (hleaves : f.leaves = g.leaves) : f = g := by
  induction f generalizing g with
  | opened | closed =>
    cases g <;> simp only [unnumbered, reduceCtorEq] at h
    exact h
  | compare l =>
    cases g <;> simp only [unnumbered, reduceCtorEq] at h
    rw [List.singleton_inj.1 hleaves]
  | existence e c negated sub ih =>
    cases g <;> simp only [unnumbered, reduceCtorEq, existence.injEq] at h
    obtain ⟨rfl, rfl, rfl, hsub⟩ := h
    rw [ih hsub hleaves]
  | junction e kind left right ihl ihr =>
    cases g <;> simp only [unnumbered, reduceCtorEq, junction.injEq] at h
    obtain ⟨rfl, rfl, hl, hr⟩ := h
    rw [leaves_junction, leaves_junction] at hleaves
    obtain ⟨hleft, hright⟩ := List.append_inj hleaves (length_leaves_eq hl)
    rw [ihl hl hleft, ihr hr hright]

theorem length_leaves_number (counters : Counters) (f : Filter) :
    (f.number counters).1.leaves.length = f.leaves.length :=
  length_leaves_eq (f.unnumbered_number counters)

/-- Each counter moves on by the pending comparisons of its shape. -/
theorem toNat_next_number (counters : Counters) (f : Filter) (s : Shape) :
    ((f.number counters).2.next s).toNat =
      min ((counters.next s).toNat + s.pending f.leaves) lastId := by
  have hstay : ∀ c : Counters, (c.next s).toNat = min ((c.next s).toNat + 0) lastId :=
    fun c => (Nat.min_eq_left (toNat_le_lastId _)).symm
  induction f generalizing counters with
  | opened | closed => exact hstay counters
  | compare l =>
    obtain ⟨entity, shape, operand⟩ := l
    cases operand with
    | bound | constant =>
      rw [leaves_compare, Shape.pending_singleton, if_neg fun h => nomatch h.2]
      exact hstay counters
    | unbound =>
      show (Counters.next (counters.insert shape (nextId (counters.next shape))) s).toNat = _
      rw [Counters.next_insert, leaves_compare, Shape.pending_singleton]
      by_cases hs : shape = s
      · rw [if_pos hs, if_pos ⟨hs, rfl⟩, toNat_nextId, hs]
      · rw [if_neg hs, if_neg fun h => hs h.1]
        exact hstay counters
  | existence e c negated sub ih => exact ih counters
  | junction e kind left right ihl ihr =>
    rw [number, leaves_junction, Shape.pending_append]
    show (((right.number (left.number counters).2).2).next s).toNat = _
    rw [ihr, ihl]
    omega

/-- The parameter at a place takes the number at which its counter stands there. -/
theorem leaves_number (counters : Counters) (f : Filter) (n : Nat) :
    (f.number counters).1.leaves[n]? = f.leaves[n]?.map fun l =>
      l.numbered ((counters.next l.shape).toNat + l.shape.pending (f.leaves.take n)) := by
  induction f generalizing counters n with
  | opened | closed => rfl
  | compare l =>
    obtain ⟨entity, shape, operand⟩ := l
    cases n with
    | succ n => cases operand <;> rfl
    | zero =>
      cases operand with
      | bound | constant => rfl
      | unbound =>
        show some _ = some (Leaf.numbered ((counters.next shape).toNat + 0) _)
        rw [Leaf.numbered_of_unbound rfl, Nat.add_zero, ofNat_min_toNat]
  | existence e c negated sub ih => exact ih counters n
  | junction e kind left right ihl ihr =>
    show (junction e kind (left.number counters).1
      (right.number (left.number counters).2).1).leaves[n]? = _
    rw [leaves_junction, leaves_junction]
    have hlength := length_leaves_number counters left
    by_cases hn : n < left.leaves.length
    · rw [List.getElem?_append_left (hlength ▸ hn), List.getElem?_append_left hn, ihl,
        List.take_append_of_le_length (Nat.le_of_lt hn)]
    · -- on the right the counters have moved on by what is pending on the left
      have hle : left.leaves.length ≤ n := by omega
      rw [List.getElem?_append_right (hlength ▸ hle), List.getElem?_append_right hle, ihr, hlength]
      refine congrArg (Option.map · _) (funext fun l => ?_)
      rw [toNat_next_number, Leaf.numbered_min_add, List.take_append, Shape.pending_append,
        List.take_of_length_le hle, Nat.add_assoc]

/-- Binding gives numbers and does nothing else. -/
theorem unnumbered_bind (f : Filter) : f.bind.unnumbered = f.unnumbered := by
  unfold bind
  split
  · rfl
  · exact f.unnumbered_number _

theorem entity_bind (f : Filter) : f.bind.entity = f.entity := by
  unfold bind
  split
  · rfl
  · exact (f.number_spec _).1

theorem depth_bind (f : Filter) : f.bind.depth = f.depth := by
  unfold bind
  split
  · rfl
  · exact (f.number_spec _).2.1

/-- A bound filter is left as it is. -/
theorem bind_of_isBound {f : Filter} (h : f.isBound = true) : f.bind = f :=
  if_pos h

/-- A second time there is nothing to number. -/
theorem bind_bind (f : Filter) : f.bind.bind = f.bind :=
  bind_of_isBound f.isBound_bind

/-- The parameter at a place takes the first free number of its shape, counted on by the pending
comparisons of the shape in front of it. -/
theorem leaves_bind (f : Filter) (n : Nat) :
    f.bind.leaves[n]? = f.leaves[n]?.map fun l =>
      l.numbered (l.shape.firstFree f.leaves + l.shape.pending (f.leaves.take n)) := by
  by_cases hbound : f.isBound = true
  · rw [bind_of_isBound hbound]
    cases hl : f.leaves[n]? with
    | none => rfl
    | some l =>
      have hne : l.operand ≠ .unbound := by
        simpa using List.all_eq_true.1 hbound l (List.mem_of_getElem? hl)
      exact congrArg some (Leaf.numbered_of_ne hne _).symm
  · rw [bind, if_neg hbound, leaves_number]
    refine congrArg (Option.map · _) (funext fun l => ?_)
    rw [Counters.toNat_next_above, Leaf.numbered_min_add]

end Filter

namespace Pool

variable {ctx : Context} {pool : Pool} {held : List Instance}

/-- Asked of a session, the bound form of an instance is that of its filter. -/
theorem requests_bind (ctx : Context) : Requests ctx Query.bind Filter.bind where
  arguments _ := rfl
  answer _ := rfl

/-- What a session hands out as the bound form. -/
theorem Reached.serve_bind (h : Reached ctx pool held) {i : Instance} (hi : i ∈ held) :
    ∃ b pool', (serve ctx (.bind i)).run pool = (.ok [b], pool') ∧ b.filter = i.filter.bind ∧
      Reached ctx pool' (b :: held) :=
  h.serve_request (requests_bind ctx) hi

/-- Binding changes operands and nothing else: a parameter without a number takes the first free
number of its shape, zero or the one after the greatest, counted on by the comparisons of the
shape without a number in front of it, and never goes beyond the last one. What comes out is
bound, over the entity and as deep, and its own bound form. -/
theorem Reached.bind_numbers (h : Reached ctx pool held) {i : Instance} (hi : i ∈ held) :
    ∃ b pool', (serve ctx (.bind i)).run pool = (.ok [b], pool') ∧
      b.filter.unnumbered = i.filter.unnumbered ∧
      (∀ n : Nat, b.filter.leaves[n]? = i.filter.leaves[n]?.map fun l =>
        l.numbered (min (l.shape.firstFree i.filter.leaves) lastId +
          l.shape.pending (i.filter.leaves.take n))) ∧
      b.filter.isBound = true ∧ b.node.entity = i.node.entity ∧ b.depth = i.depth ∧
      ∃ pool'', (serve ctx (.bind b)).run pool' = (.ok [b], pool'') := by
  obtain ⟨b, pool', hrun, hb, hreached⟩ := h.serve_bind hi
  have hmem : b ∈ b :: held := List.mem_cons_self
  refine ⟨b, pool', hrun, ?_, ?_, ?_, ?_, ?_, ?_⟩
  · rw [hb, Filter.unnumbered_bind]
  · intro n
    rw [hb, Filter.leaves_bind]
    exact congrArg (Option.map · _) (funext fun l => (Leaf.numbered_min_add _ _ l).symm)
  · rw [hb]
    exact i.filter.isBound_bind
  · rw [entity_node, entity_node, hb, Filter.entity_bind]
  · rw [hreached.sound.1.depth_eq (hreached.sound.2 b hmem),
      h.sound.1.depth_eq (h.sound.2 i hi), hb, Filter.depth_bind]
  · -- the bound form of a bound filter is the filter, and one filter is one instance
    obtain ⟨c, pool'', hrun', hc, hreached'⟩ := hreached.serve_bind hmem
    have hsame : c.filter = b.filter := by
      rw [hc, hb, Filter.bind_bind]
    have heq : c = b := hreached'.eq_of_filter_eq (by simp) (by simp) hsame
    rw [heq] at hrun'
    exact ⟨pool'', hrun'⟩

/-! ### Some numbers given -/

namespace Sample

/-- The comparison of the total of an order with a parameter. -/
def totalWith (operand : Operand) : Filter :=
  .compare ⟨"order", ⟨⟨[], ⟨⟨⟨"total", .scalar .int, false⟩, "order"⟩, false⟩⟩, .eq⟩, operand⟩

/-- The comparison of the total of the order of a line with a parameter, for some line. -/
def lineWith (operand : Operand) : Filter :=
  .existence "order" ⟨[], ⟨⟨⟨"lines", .relation "line" .toMany, false⟩, "order"⟩, false⟩⟩ false
    (.compare ⟨"line", ⟨⟨[], ⟨⟨⟨"amount", .scalar .int, true⟩, "line"⟩, false⟩⟩, .eq⟩, operand⟩)

/-- Of three parameters over the total the last has a number. -/
def partly : Filter :=
  .junction "order" .or
    (.junction "order" .and (.junction "order" .and (totalWith .unbound) (lineWith .unbound))
      (totalWith .unbound))
    (totalWith (.bound 3))

theorem exists_reached_partly : ∃ pool i, Reached context pool [i] ∧ i.filter = partly :=
  exists_reached (by decide +kernel)

/-- The number that stands last counts for the parameters in front of it. -/
theorem bind_numbers_partly :
    ∃ pool i b pool' pool'', Reached context pool [i] ∧ i.filter = partly ∧
      (serve context (.bind i)).run pool = (.ok [b], pool') ∧
      b.filter.leaves[0]?.map Leaf.operand = some (.bound 4) ∧
      b.filter.leaves[1]?.map Leaf.operand = some (.bound 0) ∧
      b.filter.leaves[2]?.map Leaf.operand = some (.bound 5) ∧
      b.filter.leaves[3]?.map Leaf.operand = some (.bound 3) ∧
      (serve context (.bind b)).run pool' = (.ok [b], pool'') := by
  obtain ⟨pool, i, hreached, hi⟩ := exists_reached_partly
  obtain ⟨b, pool', hrun, -, hplaces, -, -, -, pool'', hrun'⟩ :=
    Reached.bind_numbers hreached (List.mem_singleton_self i)
  refine ⟨pool, i, b, pool', pool'', hreached, hi, hrun, ?_, ?_, ?_, ?_, hrun'⟩ <;>
    rw [hplaces, hi] <;> decide +kernel

end Sample

end Pool

end RowFilter
