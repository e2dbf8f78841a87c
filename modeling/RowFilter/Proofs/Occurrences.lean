import RowFilter.Proofs.Complements
import RowFilter.Proofs.Numbering

/-!
# Parts of bound filters

An address leads from a filter to a part of it, over operands and into existence tests. Binding
leaves the parts where they are, and numbers the parameters of each part as binding the part alone
would, only that every counter has been moved on by the parameters of its shape that stand in
front of the part. So a part of the bound filter is the bound part exactly if none of its counters
was moved; an operand on the left always is.
-/

namespace RowFilter

/-- What an address leads to: on each level the part with that number, counted from the left. -/
def partAt {α : Type} (parts : α → List α) : List Nat → α → Option α
  | [], x => some x
  | n :: path, x => (parts x)[n]?.bind (partAt parts path)

/-- An address leads to a part, and on from there. -/
theorem partAt_cons_eq_some {α : Type} {parts : α → List α} {n : Nat} {path : List Nat} {x y : α} :
    partAt parts (n :: path) x = some y ↔
      ∃ p, (parts x)[n]? = some p ∧ partAt parts path p = some y :=
  Option.bind_eq_some_iff

/-- Addresses lead alike after a change that keeps the parts. -/
theorem partAt_map {α β : Type} {parts : α → List α} {parts' : β → List β} {g : α → β}
    (h : ∀ x, parts' (g x) = (parts x).map g) (path : List Nat) (x : α) :
    partAt parts' path (g x) = (partAt parts path x).map g := by
  induction path generalizing x with
  | nil => rfl
  | cons n path ih =>
    rw [partAt, partAt, h, List.getElem?_map]
    cases (parts x)[n]? with
    | none => rfl
    | some p => exact ih p

/-! ## Parts and what is in front of them -/

namespace Filter

variable {f c p : Filter} {n : Nat} {path : List Nat}

/-- The part of a filter at an address. -/
def at? (path : List Nat) (f : Filter) : Option Filter :=
  partAt (fun g => g.node.parts) path f

/-- The comparisons in front of the part at an address, from left to right. -/
def leavesBefore : List Nat → Filter → List Leaf
  | [], _ => []
  | n :: path, f =>
    (f.node.parts.take n).flatMap leaves ++ f.node.parts[n]?.elim [] (leavesBefore path)

/-- The parameters in front of the part at an address, from left to right, repetitions kept. -/
def parametersBefore (path : List Nat) (f : Filter) : List Leaf :=
  (f.leavesBefore path).filter fun l => l.operand.isParameter

/-- In front of an address stand the parts to the left of it, at every level. -/
theorem leavesBefore_cons (h : f.node.parts[n]? = some p) :
    f.leavesBefore (n :: path) = (f.node.parts.take n).flatMap leaves ++ p.leavesBefore path := by
  rw [leavesBefore, h, Option.elim_some]

/-- The comparisons of a filter that has parts are those of the parts. -/
theorem leaves_eq_of_part (h : f.node.parts[n]? = some p) :
    f.leaves = (f.node.parts.take n).flatMap leaves ++ p.leaves ++
      (f.node.parts.drop (n + 1)).flatMap leaves := by
  have hwhole : f.leaves = f.node.parts.flatMap leaves := by
    cases f with
    | opened | closed => rfl
    | compare l => exact nomatch h
    | existence e c negated sub => exact (List.flatMap_singleton _ _).symm
    | junction e kind left right => simp [node, Node.parts]
  obtain ⟨hn, rfl⟩ := List.getElem?_eq_some_iff.1 h
  rw [hwhole, ← List.flatMap_singleton leaves f.node.parts[n], ← List.flatMap_append,
    ← List.flatMap_append, List.take_append_getElem, List.take_append_drop]

/-- The comparisons of a part stand in one piece behind those in front of it. -/
theorem leaves_eq_of_at? (h : f.at? path = some c) :
    ∃ behind, f.leaves = f.leavesBefore path ++ c.leaves ++ behind := by
  induction path generalizing f with
  | nil =>
    obtain rfl := Option.some.inj h
    exact ⟨[], (List.append_nil _).symm⟩
  | cons n path ih =>
    obtain ⟨p, hp, hc⟩ := partAt_cons_eq_some.1 h
    obtain ⟨behind, hbehind⟩ := ih hc
    refine ⟨behind ++ (f.node.parts.drop (n + 1)).flatMap leaves, ?_⟩
    rw [leaves_eq_of_part hp, leavesBefore_cons hp, hbehind]
    simp only [List.append_assoc]

/-- The comparisons of a part are comparisons of the whole. -/
theorem subset_leaves_of_at? (h : f.at? path = some c) : c.leaves ⊆ f.leaves := by
  obtain ⟨behind, hbehind⟩ := leaves_eq_of_at? h
  intro l hl
  rw [hbehind]
  exact List.mem_append_left _ (List.mem_append_right _ hl)

theorem leavesBefore_subset (h : f.at? path = some c) : f.leavesBefore path ⊆ f.leaves := by
  obtain ⟨behind, hbehind⟩ := leaves_eq_of_at? h
  intro l hl
  rw [hbehind]
  exact List.mem_append_left _ (List.mem_append_left _ hl)

/-- A place in a part is a place in the filter. -/
theorem getElem?_leaves_of_at? (h : f.at? path = some c) (hn : n < c.leaves.length) :
    f.leaves[(f.leavesBefore path).length + n]? = c.leaves[n]? ∧
      f.leaves.take ((f.leavesBefore path).length + n) =
        f.leavesBefore path ++ c.leaves.take n := by
  obtain ⟨behind, hbehind⟩ := leaves_eq_of_at? h
  rw [hbehind, List.append_assoc]
  constructor
  · rw [List.getElem?_append_right (Nat.le_add_right _ _), Nat.add_sub_cancel_left,
      List.getElem?_append_left hn]
  · rw [List.take_length_add_append, List.take_append_of_le_length (Nat.le_of_lt hn)]

/-! ## Parts without numbers -/

/-- Taking the numbers away takes them from the parts. -/
theorem parts_unnumbered (f : Filter) :
    f.unnumbered.node.parts = f.node.parts.map unnumbered := by
  cases f <;> rfl

/-- The part at an address loses its numbers as the whole does. -/
theorem at?_unnumbered (path : List Nat) (f : Filter) :
    f.unnumbered.at? path = (f.at? path).map unnumbered :=
  partAt_map parts_unnumbered path f

theorem leavesBefore_unnumbered (path : List Nat) (f : Filter) :
    f.unnumbered.leavesBefore path = (f.leavesBefore path).map Leaf.unnumbered := by
  induction path generalizing f with
  | nil => rfl
  | cons n path ih =>
    rw [leavesBefore, leavesBefore, parts_unnumbered, List.map_append, List.getElem?_map,
      ← List.map_take, List.flatMap_map, List.map_flatMap,
      List.flatMap_congr fun g _ => leaves_unnumbered g]
    congr 1
    cases f.node.parts[n]? with
    | none => rfl
    | some p => exact ih p

/-- Where the bound filter has a part, the filter has it without numbers. -/
theorem exists_at?_bind (h : f.at? path = some c) :
    ∃ d, f.bind.at? path = some d ∧ d.unnumbered = c.unnumbered ∧
      (f.bind.leavesBefore path).length = (f.leavesBefore path).length := by
  have hpart := f.bind.at?_unnumbered path
  rw [unnumbered_bind, at?_unnumbered, h, Option.map_some] at hpart
  obtain ⟨d, hd, hsame⟩ := Option.map_eq_some_iff.1 hpart.symm
  have hbefore := congrArg List.length (f.bind.leavesBefore_unnumbered path)
  rw [unnumbered_bind, leavesBefore_unnumbered, List.length_map, List.length_map] at hbefore
  exact ⟨d, hd, hsame, hbefore.symm⟩

/-! ## Filters without numbers -/

/-- No parameter has a number yet. -/
def AllPending (f : Filter) : Prop :=
  ∀ l ∈ f.parameters, l.operand = .unbound

instance (f : Filter) : Decidable f.AllPending :=
  inferInstanceAs (Decidable (∀ l ∈ f.parameters, _))

/-- What is pending as a whole is pending in part. -/
theorem AllPending.of_subset (h : f.AllPending) (hsub : c.leaves ⊆ f.leaves) : c.AllPending := by
  intro l hl
  obtain ⟨hmem, hparam⟩ := List.mem_filter.1 hl
  exact h l (List.mem_filter.2 ⟨hsub hmem, hparam⟩)

theorem allPending_junction {left right : Filter} (hl : left.AllPending) (hr : right.AllPending)
    {e : String} {kind : Junction} : (junction e kind left right).AllPending := by
  intro l hmem
  rw [parameters, leaves_junction, List.filter_append] at hmem
  rcases List.mem_append.1 hmem with hmem | hmem
  · exact hl l hmem
  · exact hr l hmem

/-- Where all is pending no number is in use. -/
theorem AllPending.firstFree (h : f.AllPending) (s : Shape) : s.firstFree f.leaves = 0 := by
  by_contra hne
  obtain ⟨n, hn⟩ := Nat.exists_eq_succ_of_ne_zero hne
  obtain ⟨l, hl, hid⟩ := Shape.exists_numberOf hn
  obtain ⟨-, id, hoperand, -⟩ := Shape.numberOf_eq_some.1 hid
  have hparam : l.operand.isParameter = true := by
    rw [hoperand]
    rfl
  have hunbound := h l (List.mem_filter.2 ⟨hl, hparam⟩)
  rw [hoperand] at hunbound
  exact nomatch hunbound

/-- Numbering starts at zero for every shape. -/
theorem AllPending.leaves_bind (h : f.AllPending) (n : Nat) :
    f.bind.leaves[n]? = f.leaves[n]?.map fun l =>
      l.numbered (l.shape.pending (f.leaves.take n)) := by
  rw [Filter.leaves_bind]
  refine congrArg (Option.map · _) (funext fun l => ?_)
  rw [h.firstFree, Nat.zero_add]

/-- The part of the bound filter is numbered as the part is, with every counter moved on by what
stands in front of the part. -/
theorem AllPending.exists_at?_bind (h : f.AllPending) (hc : f.at? path = some c) :
    ∃ d, f.bind.at? path = some d ∧ d.unnumbered = c.unnumbered ∧
      ∀ n : Nat, d.leaves[n]? = c.leaves[n]?.map fun l =>
        l.numbered (l.shape.pending (f.leavesBefore path) + l.shape.pending (c.leaves.take n)) := by
  obtain ⟨d, hd, hsame, hbefore⟩ := Filter.exists_at?_bind hc
  refine ⟨d, hd, hsame, fun n => ?_⟩
  have hlength := length_leaves_eq hsame
  by_cases hn : n < c.leaves.length
  · obtain ⟨hget, htake⟩ := getElem?_leaves_of_at? hc hn
    rw [← (getElem?_leaves_of_at? hd (hlength ▸ hn)).1, hbefore, h.leaves_bind, hget, htake]
    refine congrArg (Option.map · _) (funext fun l => ?_)
    rw [Shape.pending_append]
  · have hle := Nat.not_lt.1 hn
    rw [List.getElem?_eq_none (hlength ▸ hle), List.getElem?_eq_none hle]
    rfl

/-- The counter of a shape is moved on by the parameters in front that have it. -/
theorem AllPending.pending_leavesBefore (h : f.AllPending) (hc : f.at? path = some c) (s : Shape) :
    s.pending (f.leavesBefore path) = 0 ↔ ∀ k ∈ f.parametersBefore path, k.shape ≠ s := by
  unfold Shape.pending parametersBefore
  simp only [List.countP_eq_zero, decide_eq_true_eq, List.mem_filter]
  constructor
  · intro hnone k ⟨hk, hparam⟩ hs
    have hk' : k ∈ f.parameters := List.mem_filter.2 ⟨leavesBefore_subset hc hk, hparam⟩
    exact hnone k hk ⟨hs, h k hk'⟩
  · intro hother k hk ⟨hs, hu⟩
    exact hother k ⟨hk, by rw [hu]; rfl⟩ hs

/-- Counters that were moved on number a filter as they would from zero exactly if none of those
that it needs was. -/
theorem AllPending.leaves_eq_iff (h : c.AllPending) {d : Filter} (moved : Shape → Nat)
    (hleaves : ∀ n : Nat, d.leaves[n]? = c.leaves[n]?.map fun l =>
      l.numbered (moved l.shape + l.shape.pending (c.leaves.take n))) :
    d.leaves = c.bind.leaves ↔ ∀ l ∈ c.parameters, moved l.shape = 0 := by
  constructor
  · intro heq l hl
    -- the first parameter of the shape has the number zero in the bound form
    obtain ⟨m, hm⟩ := List.getElem?_of_mem (List.mem_filter.1 hl).1
    have hpos : 0 < l.shape.pending c.leaves :=
      Nat.lt_of_le_of_lt (Nat.zero_le _) (Shape.pending_take_lt_pending hm rfl (h l hl))
    obtain ⟨n, k, hk, hshape, hku, hfirst⟩ := Shape.exists_pending hpos
    have hplace := congrArg (·[n]?) heq
    simp only [hleaves, h.leaves_bind, hk, Option.map_some, Option.some_inj, hshape,
      hfirst] at hplace
    rw [Leaf.numbered_of_unbound hku, Leaf.numbered_of_unbound hku] at hplace
    have hid : Operand.bound _ = Operand.bound _ := congrArg Leaf.operand hplace
    have hnumber := congrArg UInt32.toNat (Operand.bound.inj hid)
    rw [toNat_ofNat_min_lastId, toNat_ofNat_min_lastId] at hnumber
    have hlast : 0 < lastId := by decide
    omega
  · intro hzero
    apply List.ext_getElem?
    intro n
    rw [hleaves, h.leaves_bind]
    apply Option.map_congr
    intro l hl
    by_cases hu : l.operand = .unbound
    · have hmem : l ∈ c.parameters := by
        refine List.mem_filter.2 ⟨List.mem_of_getElem? hl, ?_⟩
        rw [hu]
        rfl
      rw [hzero l hmem, Nat.zero_add]
    · rw [Leaf.numbered_of_ne hu, Leaf.numbered_of_ne hu]

/-- A part is bound with the filter as it is bound alone exactly if no parameter in front of it has
the shape of one of its parameters. -/
theorem AllPending.at?_bind_iff (h : f.AllPending) (hc : f.at? path = some c) :
    f.bind.at? path = some c.bind ↔
      ∀ l ∈ c.parameters, ∀ k ∈ f.parametersBefore path, k.shape ≠ l.shape := by
  obtain ⟨d, hd, hsame, hleaves⟩ := h.exists_at?_bind hc
  have hpart : c.AllPending := h.of_subset (subset_leaves_of_at? hc)
  have hiff : d = c.bind ↔ d.leaves = c.bind.leaves :=
    ⟨congrArg leaves, eq_of_unnumbered_eq (hsame.trans c.unnumbered_bind.symm)⟩
  rw [hd, Option.some_inj, hiff,
    hpart.leaves_eq_iff (fun s => s.pending (f.leavesBefore path)) hleaves]
  exact forall₂_congr fun l _ => h.pending_leavesBefore hc l.shape

/-- In front of the left operand there is nothing. -/
theorem AllPending.bind_junction {e : String} {kind : Junction} {left right : Filter}
    (h : (junction e kind left right).AllPending) :
    ∃ right', (junction e kind left right).bind = junction e kind left.bind right' := by
  have hpart : (junction e kind left right).at? [0] = some left := rfl
  have hleft := (h.at?_bind_iff hpart).2 fun l _ k hk => nomatch hk
  have hsame := (junction e kind left right).unnumbered_bind
  generalize (junction e kind left right).bind = b at hleft hsame
  cases b <;> simp only [unnumbered, reduceCtorEq, junction.injEq] at hsame
  obtain ⟨rfl, rfl, -, -⟩ := hsame
  rw [← Option.some.inj hleft]
  exact ⟨_, rfl⟩

end Filter

namespace Instance

/-- The part of an instance at an address. -/
def at? (path : List Nat) (i : Instance) : Option Instance :=
  partAt (fun j => j.node.parts) path i

/-- The part of an instance at an address is the instance of the part of its filter. -/
theorem filter_at? (path : List Nat) (i : Instance) :
    i.filter.at? path = (i.at? path).map filter := by
  refine partAt_map (fun j => ?_) path i
  rw [node_filter, Node.parts_map]

/-- An instance of a junction has instances of the operands as its parts. -/
theorem exists_of_filter_junction {i : Instance} {e : String} {kind : Junction}
    {left right : Filter} (h : i.filter = .junction e kind left right) :
    ∃ l r, i.node = .junction e kind l r ∧ l.filter = left ∧ r.filter = right := by
  obtain ⟨id, depth, node⟩ := i
  cases node <;> simp only [filter, reduceCtorEq, Filter.junction.injEq] at h
  obtain ⟨rfl, rfl, rfl, rfl⟩ := h
  exact ⟨_, _, rfl, rfl, rfl⟩

end Instance

/-! ## In a session -/

namespace Pool

variable {ctx : Context} {pool : Pool} {held : List Instance}

/-- What an address in an instance leads to can be held without a request. -/
theorem Reached.exists_part (h : Reached ctx pool held) {i c : Instance} {path : List Nat}
    (hi : i ∈ held) (hc : i.at? path = some c) :
    ∃ held', Reached ctx pool held' ∧ c ∈ held' ∧ held ⊆ held' := by
  induction path generalizing i held with
  | nil =>
    obtain rfl := Option.some.inj hc
    exact ⟨held, h, hi, fun j hj => hj⟩
  | cons n path ih =>
    obtain ⟨p, hp, hc⟩ := partAt_cons_eq_some.1 hc
    obtain ⟨held', h', hc', hsub⟩ :=
      ih (h.part hi (List.mem_of_getElem? hp)) List.mem_cons_self hc
    exact ⟨held', h', hc', fun j hj => hsub (List.mem_cons_of_mem p hj)⟩

/-- The operands of an instance of a junction, where they are held. -/
theorem Reached.operands_eq (h : Reached ctx pool held) {i j k : Instance} {e : String}
    {kind : Junction} (hi : i ∈ held) (hj : j ∈ held) (hk : k ∈ held)
    (hfilter : k.filter = .junction e kind i.filter j.filter) :
    k.node = .junction e kind i j := by
  obtain ⟨l, r, hnode, hl, hr⟩ := Instance.exists_of_filter_junction hfilter
  have hparts : k.node.parts = [l, r] := by
    rw [hnode]
    rfl
  have hreached := (h.part hk (p := l) (by simp [hparts])).part (List.mem_cons_of_mem l hk)
    (p := r) (by simp [hparts])
  have hleft : l = i := hreached.eq_of_filter_eq (by simp) (by simp [hi]) hl
  have hright : r = j := hreached.eq_of_filter_eq (by simp) (by simp [hj]) hr
  rw [hnode, hleft, hright]

/-- What stands in the bound form in the place of a part is what the part is bound to, exactly if
no parameter in front of the part has the shape of one of its parameters. -/
theorem Reached.bind_part_iff (h : Reached ctx pool held) {i b c d : Instance} {path : List Nat}
    (hi : i ∈ held) (hb : b ∈ held) (hbound : b.filter = i.filter.bind)
    (hpending : i.filter.AllPending) (hc : i.at? path = some c) (hd : b.at? path = some d) :
    ∃ g pool', (serve ctx (.bind c)).run pool = (.ok [g], pool') ∧
      (d = g ↔ ∀ l ∈ c.filter.parameters, ∀ k ∈ i.filter.parametersBefore path,
        k.shape ≠ l.shape) := by
  have hpart : i.filter.at? path = some c.filter := by
    rw [Instance.filter_at?, hc, Option.map_some]
  have hplace : i.filter.bind.at? path = some d.filter := by
    rw [← hbound, Instance.filter_at?, hd, Option.map_some]
  -- the part and what stands in its place can be held too
  obtain ⟨held₁, h₁, hc₁, hsub₁⟩ := h.exists_part hi hc
  obtain ⟨held₂, h₂, hd₂, hsub₂⟩ := h₁.exists_part (hsub₁ hb) hd
  obtain ⟨g, pool', hrun, hg, hreached⟩ := h₂.serve_bind (hsub₂ hc₁)
  have hone : d = g ↔ d.filter = g.filter :=
    ⟨congrArg _, hreached.eq_of_filter_eq (List.mem_cons_of_mem g hd₂) List.mem_cons_self⟩
  refine ⟨g, pool', hrun, ?_⟩
  rw [hone, hg, ← hpending.at?_bind_iff hpart, hplace, Option.some_inj]

/-- The left operand of the bound form of a junction is what the left operand is bound to. -/
theorem Reached.bind_left_operand (h : Reached ctx pool held) {i k : Instance} {e : String}
    {kind : Junction} {right : Filter} (hi : i ∈ held) (hk : k ∈ held)
    (hfilter : k.filter = .junction e kind i.filter right) (hpending : k.filter.AllPending) :
    ∃ b pool₁ g pool₂, (serve ctx (.bind k)).run pool = (.ok [b], pool₁) ∧
      (serve ctx (.bind i)).run pool₁ = (.ok [g], pool₂) ∧ b.left? = some g := by
  obtain ⟨b, pool₁, hrun₁, hb, h₁⟩ := h.serve_bind hk
  obtain ⟨g, pool₂, hrun₂, hg, h₂⟩ := h₁.serve_bind (List.mem_cons_of_mem b hi)
  rw [hfilter] at hb hpending
  obtain ⟨right', hbind⟩ := hpending.bind_junction
  rw [hbind, ← hg] at hb
  obtain ⟨l, r, hnode, hl, -⟩ := Instance.exists_of_filter_junction hb
  have hpart : l ∈ b.node.parts := by
    rw [hnode]
    simp [Node.parts]
  have h₃ := h₂.part (List.mem_cons_of_mem g List.mem_cons_self) hpart
  have hsame : l = g := h₃.eq_of_filter_eq (by simp) (by simp) hl
  refine ⟨b, pool₁, g, pool₂, hrun₁, hrun₂, ?_⟩
  rw [Instance.left?, hnode, hsame]

/-- An instance none of whose parameters has a number, bound as a whole: at every address stands
what the part there is bound to alone, however the session goes on, exactly if no parameter in front
of the part has the shape of one of its parameters. So the left operand of a junction is bound as
it is alone; and what the session hands out for a junction is one, unless one of its operands is
open or closed. -/
theorem Reached.bind_agrees_on_parts (h : Reached ctx pool held) {i : Instance} (hi : i ∈ held)
    (hpending : i.filter.AllPending) :
    (∃ b pool₁, (serve ctx (.bind i)).run pool = (.ok [b], pool₁) ∧
      ∀ (path : List Nat) (c : Instance), i.at? path = some c → ∃ d, b.at? path = some d ∧
        ∀ {pool' : Pool} {held' : List Instance}, Leads ctx pool₁ (b :: held) pool' held' →
          ∃ g pool'', (serve ctx (.bind c)).run pool' = (.ok [g], pool'') ∧
            (d = g ↔ ∀ l ∈ c.filter.parameters, ∀ k ∈ i.filter.parametersBefore path,
              k.shape ≠ l.shape)) ∧
      ∀ (kind : Junction) (j k : Instance) (pool₂ : Pool), j ∈ held → j.filter.AllPending →
        (serve ctx (.combine kind i j)).run pool = (.ok [k], pool₂) →
          (k = i ∨ k = j) ∧ ¬(i.filter.Proper ∧ j.filter.Proper) ∨
            k.left? = some i ∧ k.right? = some j ∧
            ∀ {pool' : Pool} {held' : List Instance}, Leads ctx pool₂ (k :: held) pool' held' →
              ∃ b pool₃ g pool₄, (serve ctx (.bind k)).run pool' = (.ok [b], pool₃) ∧
                (serve ctx (.bind i)).run pool₃ = (.ok [g], pool₄) ∧ b.left? = some g := by
  constructor
  · obtain ⟨b, pool₁, hrun, hb, hreached⟩ := h.serve_bind hi
    refine ⟨b, pool₁, hrun, fun path c hc => ?_⟩
    have hpart : i.filter.at? path = some c.filter := by
      rw [Instance.filter_at?, hc, Option.map_some]
    obtain ⟨f, hf, -⟩ := hpending.exists_at?_bind hpart
    rw [← hb, Instance.filter_at?] at hf
    obtain ⟨d, hd, -⟩ := Option.map_eq_some_iff.1 hf
    refine ⟨d, hd, fun hleads => ?_⟩
    have hreached' := hleads.reached hreached
    exact hreached'.bind_part_iff (hleads.mem i (by simp [hi])) (hleads.mem b (by simp)) hb
      hpending hc hd
  · intro kind j k pool₂ hj hjpending hrun
    have hargs : ∀ x ∈ (Query.combine kind i j).arguments, x ∈ held := by
      simp [Query.arguments, hi, hj]
    obtain ⟨g, hg, hanswer, hreached⟩ := h.of_run_one hargs rfl hrun
    obtain rfl := List.singleton_inj.1 hg
    have hi' : i ∈ k :: held := List.mem_cons_of_mem k hi
    have hj' : j ∈ k :: held := List.mem_cons_of_mem k hj
    have hk' : k ∈ k :: held := List.mem_cons_self
    rcases combine_cases hanswer with ⟨hone, hproper⟩ | hjunction
    · refine .inl ⟨hone.imp ?_ ?_, hproper⟩
      · exact hreached.eq_of_filter_eq hk' hi'
      · exact hreached.eq_of_filter_eq hk' hj'
    · have hnode := hreached.operands_eq hi' hj' hk' hjunction
      have hall : k.filter.AllPending := by
        rw [hjunction]
        exact Filter.allPending_junction hpending hjpending
      refine .inr ⟨?_, ?_, fun hleads => ?_⟩
      · rw [Instance.left?, hnode]
      · rw [Instance.right?, hnode]
      · have hreached' := hleads.reached hreached
        exact hreached'.bind_left_operand (hleads.mem i hi') (hleads.mem k hk') hjunction hall

namespace Sample

/-- The total of an order occurs twice, with a test for its lines between. -/
def repeated : Filter :=
  .junction "order" .and (.junction "order" .and (totalWith .unbound) (lineWith .unbound))
    (totalWith .unbound)

/-- The comparison inside the test is bound as it is alone, the second one of the total is not. -/
theorem bind_agrees_on_parts_repeated :
    ∃ pool i b pool₁ c d pool₂ c' d' g pool₃, Reached context pool [i] ∧ i.filter = repeated ∧
      (serve context (.bind i)).run pool = (.ok [b], pool₁) ∧
      i.at? [0, 1, 0] = some c ∧ b.at? [0, 1, 0] = some d ∧
      (serve context (.bind c)).run pool₁ = (.ok [d], pool₂) ∧
      i.at? [1] = some c' ∧ b.at? [1] = some d' ∧
      (serve context (.bind c')).run pool₁ = (.ok [g], pool₃) ∧ d' ≠ g := by
  obtain ⟨pool, i, hreached, hi⟩ := exists_reached (f := repeated) (by decide +kernel)
  have hpending : i.filter.AllPending := by
    rw [hi]
    decide +kernel
  obtain ⟨⟨b, pool₁, hrun, hparts⟩, -⟩ :=
    Reached.bind_agrees_on_parts hreached (List.mem_singleton_self i) hpending
  have hinner := i.filter_at? [0, 1, 0]
  have hlast := i.filter_at? [1]
  rw [hi] at hinner hlast
  obtain ⟨c, hc, hcf⟩ := Option.map_eq_some_iff.1 hinner.symm
  obtain ⟨c', hc', hcf'⟩ := Option.map_eq_some_iff.1 hlast.symm
  obtain ⟨d, hd, hbound⟩ := hparts [0, 1, 0] c hc
  obtain ⟨d', hd', hbound'⟩ := hparts [1] c' hc'
  obtain ⟨g, pool₂, hg, hiff⟩ := hbound .refl
  obtain ⟨g', pool₃, hg', hiff'⟩ := hbound' .refl
  rw [hi, hcf] at hiff
  rw [hi, hcf'] at hiff'
  have hsame : d = g := hiff.2 (by decide +kernel)
  have hother : d' ≠ g' := fun heq => absurd (hiff'.1 heq) (by decide +kernel)
  rw [← hsame] at hg
  exact ⟨pool, i, b, pool₁, c, d, pool₂, c', d', g', pool₃, hreached, hi, hrun, hc, hd, hg, hc',
    hd', hg', hother⟩

end Sample

end Pool

end RowFilter
