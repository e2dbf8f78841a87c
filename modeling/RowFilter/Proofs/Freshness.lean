import RowFilter.Proofs.Numbering

/-!
# Numbers that are given once

A counter stops at the last number. As long as it has a number for each comparison that waits for
one, binding makes of every such comparison a parameter of its own; when it has run out, two of
them, or one and a parameter that was numbered before, become the same. How many slots the values
of a filter have follows from it.
-/

namespace RowFilter

namespace Filter

/-! ## When parameters stay apart -/

/-- At this place there is a parameter without a number. -/
def IsPending (f : Filter) (n : Nat) : Prop :=
  ∃ l, f.leaves[n]? = some l ∧ l.operand = .unbound

/-- Every parameter that takes a number becomes another one than those at other places. -/
def BindsApart (f : Filter) : Prop :=
  ∀ m n : Nat, m ≠ n → f.IsPending m → f.HasParameter n → f.bind.leaves[m]? ≠ f.bind.leaves[n]?

/-- For each shape there are as many numbers left as there are comparisons to number. -/
def HasRoom (f : Filter) : Prop :=
  ∀ l ∈ f.leaves, l.shape.firstFree f.leaves + l.shape.pending f.leaves ≤ UInt32.size

instance (f : Filter) : Decidable f.HasRoom :=
  inferInstanceAs (Decidable (∀ l ∈ f.leaves, _))

variable {f : Filter} {l k : Leaf} {n : Nat}

/-- An unbound parameter gets the number that its place asks for, or the last there is. -/
theorem leaves_bind_of_unbound (hl : f.leaves[n]? = some l) (hu : l.operand = .unbound) :
    ∃ k, f.bind.leaves[n]? = some k ∧ l.shape.numberOf k =
      some (min (l.shape.firstFree f.leaves + l.shape.pending (f.leaves.take n)) lastId) := by
  let number := min (l.shape.firstFree f.leaves + l.shape.pending (f.leaves.take n)) lastId
  refine ⟨{ l with operand := .bound (UInt32.ofNat number) }, ?_, ?_⟩
  · rw [leaves_bind, hl, Option.map_some, Leaf.numbered_of_unbound hu]
  · exact Shape.numberOf_eq_some.2 ⟨rfl, _, rfl, toNat_ofNat_min_lastId _⟩

theorem leaves_bind_of_ne (hl : f.leaves[n]? = some l) (hne : l.operand ≠ .unbound) :
    f.bind.leaves[n]? = some l := by
  rw [leaves_bind, hl, Option.map_some, Leaf.numbered_of_ne hne]

/-- With numbers enough, a parameter that gets one is different from all others. -/
theorem HasRoom.bindsApart (h : f.HasRoom) : f.BindsApart := by
  have hroom : ∀ {n : Nat} {l : Leaf}, f.leaves[n]? = some l → l.operand = .unbound →
      l.shape.firstFree f.leaves + l.shape.pending (f.leaves.take n) ≤ lastId := by
    intro n l hl hu
    have hlt := Shape.pending_take_lt_pending hl rfl hu
    have htotal := h l (List.mem_of_getElem? hl)
    unfold lastId
    omega
  intro m n hmn ⟨l, hl, hu⟩ ⟨k, hk, hparam⟩ heq
  obtain ⟨l', hl', hid⟩ := leaves_bind_of_unbound hl hu
  rw [Nat.min_eq_left (hroom hl hu)] at hid
  by_cases hku : k.operand = .unbound
  · obtain ⟨k', hk', hid'⟩ := leaves_bind_of_unbound hk hku
    rw [Nat.min_eq_left (hroom hk hku)] at hid'
    rw [hl', hk'] at heq
    obtain rfl := Option.some.inj heq
    have hshape : l.shape = k.shape :=
      (Shape.numberOf_eq_some.1 hid).1.symm.trans (Shape.numberOf_eq_some.1 hid').1
    rw [hshape, hid'] at hid
    have hsum := Option.some.inj hid
    -- of two places the later one has more pending comparisons in front of it
    rcases Nat.lt_or_gt_of_ne hmn with hlt | hlt
    · have hbefore := Shape.pending_take_lt hl hshape hu hlt
      omega
    · have hbefore := Shape.pending_take_lt hk rfl hku hlt
      omega
  · rw [hl', leaves_bind_of_ne hk hku] at heq
    obtain rfl := Option.some.inj heq
    have hlt := Shape.lt_firstFree (List.mem_of_getElem? hk) hid
    omega

/-- Comparisons in shape are over the entity that their chain starts from. -/
theorem entity_eq_of_shape_eq (hshape : ∀ l ∈ f.leaves, l.InShape) (hl : l ∈ f.leaves)
    (hk : k ∈ f.leaves) (h : l.shape = k.shape) : l.entity = k.entity := by
  have hroot : l.shape.chain.root = k.shape.chain.root := by rw [h]
  exact (hshape l hl).root.symm.trans (hroot.trans (hshape k hk).root)

/-- Where parameters stay apart, what takes a number takes one that its shape has nowhere else. -/
theorem BindsApart.numberOf_ne (h : f.BindsApart) (hshape : ∀ l ∈ f.leaves, l.InShape)
    {s : Shape} {m n : Nat} {number : Nat} {k l : Leaf} (hmn : m ≠ n) (hpending : f.IsPending m)
    (hk : f.bind.leaves[m]? = some k) (hid : s.numberOf k = some number)
    (hl : f.bind.leaves[n]? = some l) : s.numberOf l ≠ some number := by
  intro hid'
  obtain ⟨hks, -⟩ := Shape.numberOf_eq_some.1 hid
  obtain ⟨hls, id, hoperand, -⟩ := Shape.numberOf_eq_some.1 hid'
  have hk₀ := hk
  have hl₀ := hl
  rw [leaves_bind] at hk₀ hl₀
  obtain ⟨k₀, hkget, rfl⟩ := Option.map_eq_some_iff.1 hk₀
  obtain ⟨l₀, hlget, rfl⟩ := Option.map_eq_some_iff.1 hl₀
  have hparam : f.HasParameter n := by
    refine ⟨l₀, hlget, ?_⟩
    by_cases hu : l₀.operand = .unbound
    · rw [hu]
      rfl
    · rw [Leaf.numbered_of_ne hu] at hoperand
      rw [hoperand]
      rfl
  rw [Leaf.shape_numbered] at hks hls
  have hsame : k₀.entity = l₀.entity :=
    entity_eq_of_shape_eq hshape (List.mem_of_getElem? hkget) (List.mem_of_getElem? hlget)
      (hks.trans hls.symm)
  apply h m n hmn hpending hparam
  rw [hk, hl]
  exact congrArg some (Shape.eq_of_numberOf hid hid' (by simpa using hsame))

/-- If numbers run out, two unbound parameters of a shape get the last one, or one gets the number
of another that has it. -/
theorem hasRoom_of_bindsApart (hshape : ∀ l ∈ f.leaves, l.InShape) (h : f.BindsApart) :
    f.HasRoom := by
  intro l hl
  by_contra hfull
  have hsize : UInt32.size = lastId + 1 := by decide
  have hfirst := l.shape.firstFree_le_size f.leaves
  have hexists := fun j => @Shape.exists_pending l.shape f.leaves j
  -- the last comparison that is pending takes the last number
  obtain ⟨m, k, hk, hks, hku, hm⟩ := hexists (l.shape.pending f.leaves - 1) (by omega)
  obtain ⟨k', hk', hid⟩ := leaves_bind_of_unbound hk hku
  rw [hks, hm, Nat.min_eq_right (by omega)] at hid
  by_cases hone : l.shape.pending f.leaves = 1
  · -- it is the only one, so the last number is carried already
    obtain ⟨c, hc, hcid⟩ := @Shape.exists_numberOf l.shape f.leaves lastId (by omega)
    obtain ⟨-, id, hoperand, -⟩ := Shape.numberOf_eq_some.1 hcid
    have hcu : c.operand ≠ .unbound := by
      rw [hoperand]
      exact fun h => nomatch h
    obtain ⟨n, hn, hget⟩ := List.getElem_of_mem hc
    have hc? : f.leaves[n]? = some c := by
      rw [List.getElem?_eq_getElem hn, hget]
    have hmn : m ≠ n := by
      rintro rfl
      rw [hk] at hc?
      exact hcu (Option.some.inj hc? ▸ hku)
    exact h.numberOf_ne hshape hmn ⟨k, hk, hku⟩ hk' hid (leaves_bind_of_ne hc? hcu) hcid
  · -- so does the one before
    obtain ⟨n, c, hc, hcs, hcu, hn⟩ := hexists (l.shape.pending f.leaves - 2) (by omega)
    obtain ⟨c', hc', hid'⟩ := leaves_bind_of_unbound hc hcu
    rw [hcs, hn, Nat.min_eq_right (by omega)] at hid'
    have hmn : m ≠ n := by
      rintro rfl
      omega
    exact h.numberOf_ne hshape hmn ⟨k, hk, hku⟩ hk' hid hc' hid'

/-! ## How many parameters there are -/

/-- The comparisons, each with what it becomes. -/
def bindings (f : Filter) : List (Leaf × Leaf) :=
  f.leaves.zip f.bind.leaves

theorem length_leaves_bind (f : Filter) : f.bind.leaves.length = f.leaves.length := by
  unfold bind
  split
  · rfl
  · exact length_leaves_number _ f

/-- The pairs are of the comparisons of the filter, in order. -/
theorem map_fst_bindings (f : Filter) : f.bindings.map Prod.fst = f.leaves :=
  List.map_fst_zip f.length_leaves_bind.ge

theorem map_snd_bindings (f : Filter) : f.bindings.map Prod.snd = f.bind.leaves :=
  List.map_snd_zip f.length_leaves_bind.le

/-- At each place is the pair of what stands there before and after. -/
theorem getElem?_bindings {p : Leaf × Leaf} :
    f.bindings[n]? = some p ↔ f.leaves[n]? = some p.1 ∧ f.bind.leaves[n]? = some p.2 :=
  List.getElem?_zip_eq_some

/-- A parameter of the bound form comes from a parameter: from one that takes a number, or from
the same one. -/
theorem mem_parameters_bind :
    l ∈ f.bind.parameters ↔ (∃ p ∈ f.bindings, p.1.operand = .unbound ∧ p.2 = l) ∨
      l ∈ f.leaves ∧ ∃ id, l.operand = .bound id := by
  rw [mem_parameters f.isBound_bind]
  constructor
  · rintro ⟨hl, id, hid⟩
    rw [← map_snd_bindings, List.mem_map] at hl
    obtain ⟨p, hp, rfl⟩ := hl
    obtain ⟨n, hn⟩ := List.getElem?_of_mem hp
    obtain ⟨hfst, hsnd⟩ := getElem?_bindings.1 hn
    by_cases hu : p.1.operand = .unbound
    · exact .inl ⟨p, hp, hu, rfl⟩
    · rw [leaves_bind_of_ne hfst hu] at hsnd
      rw [← Option.some.inj hsnd] at hid ⊢
      exact .inr ⟨List.mem_of_getElem? hfst, id, hid⟩
  · rintro (⟨p, hp, hu, rfl⟩ | ⟨hl, id, hid⟩)
    · obtain ⟨n, hn⟩ := List.getElem?_of_mem hp
      obtain ⟨hfst, hsnd⟩ := getElem?_bindings.1 hn
      obtain ⟨k, hk, hnumber⟩ := leaves_bind_of_unbound hfst hu
      obtain ⟨-, id, hid, -⟩ := Shape.numberOf_eq_some.1 hnumber
      rw [hsnd] at hk
      rw [Option.some.inj hk]
      exact ⟨List.mem_of_getElem? (hsnd.trans hk), id, hid⟩
    · obtain ⟨n, hn⟩ := List.getElem?_of_mem hl
      have hne : l.operand ≠ .unbound := by
        rw [hid]
        exact fun h => nomatch h
      exact ⟨List.mem_of_getElem? (leaves_bind_of_ne hn hne), id, hid⟩

/-- The parameters that take a number, as they are then. -/
def newParameters (f : Filter) : List Leaf :=
  (f.bindings.filter fun p => p.1.operand = .unbound).map Prod.snd

/-- The parameters that have a number already, repetitions kept. -/
def oldParameters (f : Filter) : List Leaf :=
  f.leaves.filter fun l => l.operand.id?.isSome

/-- The new parameters are those that were unbound. -/
theorem mem_newParameters :
    l ∈ f.newParameters ↔ ∃ p ∈ f.bindings, p.1.operand = .unbound ∧ p.2 = l := by
  simp only [newParameters, List.mem_map, List.mem_filter, decide_eq_true_eq, and_assoc]

/-- The old ones are those that were bound already. -/
theorem mem_oldParameters :
    l ∈ f.oldParameters ↔ l ∈ f.leaves ∧ ∃ id, l.operand = .bound id := by
  unfold oldParameters
  rw [List.mem_filter]
  refine and_congr_right fun _ => ?_
  cases l.operand <;> simp [Operand.id?]

/-- There is a new parameter at each unbound place. -/
theorem length_newParameters (f : Filter) :
    f.newParameters.length = f.leaves.countP fun l => l.operand = .unbound := by
  rw [newParameters, List.length_map, ← List.countP_eq_length_filter, ← f.map_fst_bindings,
    List.countP_map]
  rfl

/-- If binding keeps parameters apart, no new one is given twice. -/
theorem BindsApart.nodup_newParameters (h : f.BindsApart) : f.newParameters.Nodup := by
  have hpairs : f.bindings.Pairwise fun p q =>
      p.1.operand = .unbound → q.1.operand = .unbound → p.2 ≠ q.2 := by
    rw [List.pairwise_iff_getElem]
    intro m n hm hn hlt hp hq heq
    obtain ⟨hfst, hsnd⟩ := getElem?_bindings.1 (List.getElem?_eq_getElem hm)
    obtain ⟨hfst', hsnd'⟩ := getElem?_bindings.1 (List.getElem?_eq_getElem hn)
    have hparam : f.HasParameter n := ⟨_, hfst', by rw [hq]; rfl⟩
    apply h m n (Nat.ne_of_lt hlt) ⟨_, hfst, hp⟩ hparam
    rw [hsnd, hsnd', heq]
  rw [newParameters, List.Nodup, List.pairwise_map]
  refine (hpairs.filter _).imp_of_mem ?_
  intro p q hp hq hne
  exact hne (by simpa using (List.mem_filter.1 hp).2) (by simpa using (List.mem_filter.1 hq).2)

theorem BindsApart.disjoint (h : f.BindsApart) :
    Disjoint f.newParameters.toFinset f.oldParameters.toFinset := by
  rw [Finset.disjoint_left]
  intro l hnew hold
  obtain ⟨p, hp, hu, rfl⟩ := mem_newParameters.1 (List.mem_toFinset.1 hnew)
  obtain ⟨hmem, id, hid⟩ := mem_oldParameters.1 (List.mem_toFinset.1 hold)
  obtain ⟨m, hm⟩ := List.getElem?_of_mem hp
  obtain ⟨n, hn⟩ := List.getElem?_of_mem hmem
  obtain ⟨hfst, hsnd⟩ := getElem?_bindings.1 hm
  have hne : p.2.operand ≠ .unbound := by
    rw [hid]
    exact fun h => nomatch h
  have hmn : m ≠ n := by
    rintro rfl
    rw [hfst] at hn
    exact hne (Option.some.inj hn ▸ hu)
  have hparam : f.HasParameter n := ⟨p.2, hn, by rw [hid]; rfl⟩
  apply h m n hmn ⟨p.1, hfst, hu⟩ hparam
  rw [hsnd, leaves_bind_of_ne hn hne]

/-- Where parameters stay apart there is a slot for each comparison that takes a number, and one
for each parameter that has one already. -/
theorem BindsApart.length_slots (h : f.BindsApart) :
    (ValueSet.ofFilter f).slots.length =
      (f.leaves.countP fun l => l.operand = .unbound) + f.oldParameters.eraseDups.length := by
  have hslots : (ValueSet.ofFilter f).slots.length = f.bind.parameters.toFinset.card := by
    rw [← ValueSet.length_slots_ofFilter f.isBound_bind, ValueSet.ofFilter, ValueSet.ofFilter,
      bind_bind]
  have hunion : f.bind.parameters.toFinset =
      f.newParameters.toFinset ∪ f.oldParameters.toFinset := by
    ext l
    rw [Finset.mem_union, List.mem_toFinset, List.mem_toFinset, List.mem_toFinset,
      mem_parameters_bind, mem_newParameters, mem_oldParameters]
  rw [hslots, hunion, Finset.card_union_of_disjoint h.disjoint,
    List.toFinset_card_of_nodup h.nodup_newParameters, length_newParameters, length_eraseDups]

end Filter

namespace Pool

variable {ctx : Context} {pool : Pool} {held : List Instance}

/-- In the bound form each comparison that was numbered is a parameter of its own, and there is a
slot for each of them and for each parameter that had a number, exactly if there are numbers left
for all of them. -/
theorem Reached.bind_keeps_apart (h : Reached ctx pool held) {i : Instance} (hi : i ∈ held) :
    ∃ b pool', (serve ctx (.bind i)).run pool = (.ok [b], pool') ∧
      ((∀ m n : Nat, m ≠ n → i.filter.IsPending m → i.HasParameter n →
            b.leaves[m]? ≠ b.leaves[n]?) ∧
          (ValueSet.ofFilter i.filter).slots.length =
            (i.filter.leaves.countP fun l => l.operand = .unbound) +
              i.filter.oldParameters.eraseDups.length ↔
        i.filter.HasRoom) := by
  obtain ⟨b, pool', hrun, hb, hreached⟩ := h.serve_bind hi
  have hapart : (∀ m n : Nat, m ≠ n → i.filter.IsPending m → i.HasParameter n →
      b.leaves[m]? ≠ b.leaves[n]?) ↔ i.filter.BindsApart := by
    have hplace : ∀ m n : Nat, b.leaves[m]? ≠ b.leaves[n]? ↔
        i.filter.bind.leaves[m]? ≠ i.filter.bind.leaves[n]? := by
      intro m n
      rw [Ne, hreached.place_eq_iff (by simp) m n, hb]
    simp only [hplace, ← Instance.hasParameter_filter]
    rfl
  refine ⟨b, pool', hrun, ?_⟩
  rw [hapart]
  constructor
  · intro ⟨hbinds, _⟩
    exact Filter.hasRoom_of_bindsApart (h.fits i hi).inShape.leaf hbinds
  · intro hroom
    exact ⟨hroom.bindsApart, hroom.bindsApart.length_slots⟩

/-! ### The last number -/

namespace Sample

/-- With numbers left for all, there are four slots for four parameters. -/
theorem bind_keeps_apart_partly :
    ∃ pool i b pool', Reached context pool [i] ∧ i.filter = partly ∧
      (serve context (.bind i)).run pool = (.ok [b], pool') ∧
      (ValueSet.ofFilter i.filter).slots.length = 4 := by
  obtain ⟨pool, i, hreached, hi⟩ := exists_reached_partly
  obtain ⟨b, pool', hrun, hiff⟩ :=
    Reached.bind_keeps_apart hreached (List.mem_singleton_self i)
  have hroom : i.filter.HasRoom := by
    rw [hi]
    decide +kernel
  have hslots := (hiff.2 hroom).2
  refine ⟨pool, i, b, pool', hreached, hi, hrun, ?_⟩
  rw [hslots, hi]
  decide +kernel

/-- A parameter with the last number, and one without a number. -/
def exhausted : Filter :=
  .junction "order" .or (totalWith (.bound 4294967295)) (totalWith .unbound)

theorem leaves_bind_exhausted :
    exhausted.bind.leaves =
      exhausted.leaves.map fun l => { l with operand := .bound 4294967295 } := by
  apply List.ext_getElem?
  intro n
  rw [Filter.leaves_bind]
  match n with
  | 0 | 1 => decide +kernel
  | _ + 2 => rfl

/-- When the last number is taken, the next parameter becomes the one that has it: there is one
slot for two parameters. -/
theorem bind_merges_exhausted :
    ∃ pool i b pool', Reached context pool [i] ∧
      (serve context (.bind i)).run pool = (.ok [b], pool') ∧ i.filter.IsPending 1 ∧
      i.HasParameter 0 ∧ b.leaves[0]? = b.leaves[1]? ∧
      (i.filter.leaves.countP fun l => l.operand = .unbound) = 1 ∧
      i.filter.oldParameters.eraseDups.length = 1 ∧
      (ValueSet.ofFilter i.filter).slots.length = 1 := by
  obtain ⟨pool, i, hreached, hi⟩ := exists_reached (f := exhausted) (by decide +kernel)
  have hmem : i ∈ [i] := List.mem_singleton_self i
  obtain ⟨b, pool', hrun, hb, hreached'⟩ := hreached.serve_bind hmem
  refine ⟨pool, i, b, pool', hreached, hrun, ?_, ?_, ?_, ?_, ?_, ?_⟩
  · rw [hi]
    exact ⟨_, rfl, rfl⟩
  · rw [← Instance.hasParameter_filter, hi]
    exact ⟨_, rfl, rfl⟩
  · rw [hreached'.place_eq_iff List.mem_cons_self 0 1, hb, hi, leaves_bind_exhausted]
    rfl
  · rw [hi]
    rfl
  · rw [hi]
    decide +kernel
  · rw [hi, ValueSet.ofFilter, ValueSet.empty, List.length_map, Filter.parameters,
      leaves_bind_exhausted]
    decide +kernel

end Sample

end Pool

end RowFilter
