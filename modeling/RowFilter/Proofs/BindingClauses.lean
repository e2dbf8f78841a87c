import RowFilter.Proofs.Clauses
import RowFilter.Proofs.KeptForms
import RowFilter.Proofs.Occurrences

/-!
# Binding and the clauses of normal forms

Parameters are numbered along the whole filter, and an atom may stand in many clauses. But in one
clause it stands once: the comparisons of a clause are some of those of the filter, in the same
order. So where no shape is repeated among the parameters of a filter, none is repeated in a clause.
Then every parameter takes the number zero, in the filter and in its clauses, and a filter may be
bound before its clauses are taken or after.
-/

namespace RowFilter

theorem Leaf.unnumbered_numbered (n : Nat) (l : Leaf) :
    (l.numbered n).unnumbered = l.unnumbered := by
  by_cases h : l.operand = .unbound
  · rw [numbered_of_unbound h, Leaf.unnumbered, Leaf.unnumbered, h]
    rfl
  · rw [numbered_of_ne h]

namespace Filter

variable {f g : Filter} {l : Leaf} {c : List Filter} {outer : Junction} {change : Leaf → Leaf}

/-! ## Changing comparisons -/

/-- The filter with its comparisons changed. -/
def mapLeaves (change : Leaf → Leaf) : Filter → Filter
  | opened e => opened e
  | closed e => closed e
  | compare l => compare (change l)
  | existence e c negated sub => existence e c negated (sub.mapLeaves change)
  | junction e kind left right => junction e kind (left.mapLeaves change) (right.mapLeaves change)

theorem leaves_mapLeaves (change : Leaf → Leaf) (f : Filter) :
    (f.mapLeaves change).leaves = f.leaves.map change := by
  induction f with
  | opened | closed | compare => rfl
  | existence e c negated sub ih => exact ih
  | junction e kind left right ihl ihr =>
    rw [mapLeaves, leaves_junction, leaves_junction, List.map_append, ihl, ihr]

theorem unnumbered_mapLeaves (h : ∀ l, (change l).unnumbered = l.unnumbered) (f : Filter) :
    (f.mapLeaves change).unnumbered = f.unnumbered := by
  induction f with
  | opened | closed => rfl
  | compare l => exact congrArg compare (h l)
  | existence e c negated sub ih => exact congrArg (existence e c negated) ih
  | junction e kind left right ihl ihr => rw [mapLeaves, unnumbered, unnumbered, ihl, ihr]

/-- Nothing that the rewrites look at depends on comparisons, but for the entity. -/
theorem keepsForm_mapLeaves (h : ∀ l, (change l).entity = l.entity) :
    KeepsForm id (mapLeaves change) where
  inj := Iff.rfl
  dual _ := rfl
  junction _ _ _ _ := rfl
  isAtom := by
    intro f hf
    cases f with
    | junction e kind l r => exact absurd rfl (hf e kind l r)
    | opened | closed | compare | existence => exact isAtom_iff.2 rfl
  entity f := by
    cases f with
    | compare l => exact h l
    | opened | closed | existence | junction => rfl
  depth f := by
    induction f with
    | opened | closed | compare => rfl
    | existence e c negated sub ih => exact congrArg (· + 1) ih
    | junction e kind left right ihl ihr => rw [mapLeaves, depth, depth, ihl, ihr]
  absorbs ctx kind f := by cases kind <;> cases f <;> rfl
  ignores ctx kind f := by cases kind <;> cases f <;> rfl
  unit ctx e kind := by cases kind <;> rfl

/-! ## Parameters of different shapes -/

/-- No parameter has a number, and no two have one shape. -/
structure PendingOnce (f : Filter) : Prop where
  allPending : f.AllPending
  nodup : (f.parameters.map Leaf.shape).Nodup

theorem PendingOnce.of_sublist (h : f.PendingOnce) (hsub : g.leaves.Sublist f.leaves) :
    g.PendingOnce where
  allPending := h.allPending.of_subset hsub.subset
  nodup := h.nodup.sublist ((hsub.filter _).map _)

/-- A parameter is the only one that its counter waits for. -/
theorem PendingOnce.pending_le_one (h : f.PendingOnce) (s : Shape) : s.pending f.leaves ≤ 1 := by
  refine Nat.le_trans ?_ (List.nodup_iff_count_le_one.1 h.nodup s)
  unfold Shape.pending parameters
  rw [List.count_eq_countP, List.countP_map, List.countP_filter]
  apply List.countP_mono_left
  intro l _ hl
  obtain ⟨hs, hu⟩ := of_decide_eq_true hl
  simp [hs, hu, Operand.isParameter]

theorem PendingOnce.bind_eq (h : f.PendingOnce) : f.bind = f.mapLeaves (Leaf.numbered 0) := by
  apply eq_of_unnumbered_eq
  · rw [unnumbered_bind, unnumbered_mapLeaves (Leaf.unnumbered_numbered 0)]
  · apply List.ext_getElem?
    intro n
    rw [h.allPending.leaves_bind, leaves_mapLeaves, List.getElem?_map]
    apply Option.map_congr
    intro l hl
    by_cases hu : l.operand = .unbound
    · have hlt := Shape.pending_take_lt_pending hl rfl hu
      have hone := h.pending_le_one l.shape
      have hzero : l.shape.pending (f.leaves.take n) = 0 := by omega
      rw [hzero]
    · rw [Leaf.numbered_of_ne hu, Leaf.numbered_of_ne hu]

/-! ## Comparisons of clauses -/

/-- The comparisons of a clause are some of those of the filter, in the same order. -/
theorem sublist_of_mem_expand (h : c ∈ f.expand outer) : (c.flatMap leaves).Sublist f.leaves := by
  induction f generalizing c with
  | opened | closed | compare | existence =>
    rw [List.mem_singleton.1 h, List.flatMap_singleton]
  | junction e kind left right ihl ihr =>
    rw [leaves_junction]
    by_cases hkind : kind = outer
    · rw [hkind, expand_outer] at h
      rcases List.mem_append.1 h with h | h
      · exact (ihl h).trans (List.sublist_append_left _ _)
      · exact (ihr h).trans (List.sublist_append_right _ _)
    · rw [expand_inner e hkind] at h
      obtain ⟨l, hl, r, hr, rfl⟩ := mem_distribute.1 h
      rw [List.flatMap_append]
      exact (ihl hl).append (ihr hr)

theorem PendingOnce.of_mem_clauseFilters (h : f.PendingOnce) (hg : g ∈ f.clauseFilters outer) :
    g.PendingOnce := by
  obtain ⟨c, hc, rfl⟩ := List.mem_map.1 hg
  apply h.of_sublist
  rw [flatMap_groupLeft (leaves_junction _ _) (mem_expand hc).1]
  exact sublist_of_mem_expand hc

end Filter

/-- The clauses of the bound form are the bound clauses. -/
theorem Context.split_bind {ctx : Context} {f : Filter} (hshape : f.InShape)
    (hdepth : f.depth ≤ ctx.config.maxDepth) (h : f.PendingOnce) (outer : Junction) :
    ctx.split outer f.bind = (ctx.split outer f).map (List.map Filter.bind) := by
  have hform := Filter.keepsForm_mapLeaves (Leaf.entity_numbered 0)
  have hsplit : ctx.split outer (f.mapLeaves (Leaf.numbered 0)) =
      (ctx.split outer f).map (List.map (Filter.mapLeaves (Leaf.numbered 0))) :=
    hform.split outer f
  rw [h.bind_eq, hsplit]
  cases hcs : ctx.split outer f with
  | error e => rfl
  | ok cs =>
    rw [Context.split_eq_ok hshape hdepth hcs]
    refine congrArg Except.ok (List.map_congr_left fun g hg => ?_)
    exact (h.of_mem_clauseFilters hg).bind_eq.symm

/-! ## In a session -/

namespace Pool

variable {ctx : Context} {pool : Pool} {held : List Instance}

/-- Where no parameter of an instance has a number and no two have one shape, the clauses of its
bound form are what its clauses are bound to, one by one and in order, however the session goes on
once it is bound; and they are refused where its clauses are, with the same error. -/
theorem Reached.bind_commutes_with_split (h : Reached ctx pool held) {i : Instance} (hi : i ∈ held)
    (honce : i.filter.PendingOnce) :
    ∃ b pool₁, (serve ctx (.bind i)).run pool = (.ok [b], pool₁) ∧
      ∀ {pool' : Pool} {held' : List Instance}, Leads ctx pool₁ (b :: held) pool' held' →
        ∀ outer : Junction,
          AnsweredInStep ctx Query.bind pool' (.split outer i) (.split outer b) := by
  obtain ⟨b, pool₁, hrun, hb, hreached⟩ := h.serve_bind hi
  refine ⟨b, pool₁, hrun, fun {pool' held'} hleads outer => ?_⟩
  have hfits := h.fits i hi
  refine (hleads.reached hreached).answeredInStep (requests_bind ctx) ?_ ?_ ?_
  · simpa [Query.arguments] using hleads.mem i (by simp [hi])
  · simpa [Query.arguments] using hleads.mem b (by simp)
  · simp only [Query.map, Context.answer, hb]
    exact Context.split_bind hfits.inShape hfits.depth honce outer

namespace Sample

/-- The first comparison of the choice stands in both clauses, and is bound alike in them. -/
theorem bind_commutes_with_split_choice :
    ∃ pool i b pool₁ c c' pool₂ d d' pool₃ pool₄ pool₅, Reached context pool [i] ∧
      i.filter = choice ∧ (serve context (.bind i)).run pool = (.ok [b], pool₁) ∧
      (serve context (.split .or i)).run pool₁ = (.ok [c, c'], pool₂) ∧
      (serve context (.split .or b)).run pool₂ = (.ok [d, d'], pool₃) ∧
      (serve context (.bind c)).run pool₃ = (.ok [d], pool₄) ∧
      (serve context (.bind c')).run pool₃ = (.ok [d'], pool₅) := by
  obtain ⟨pool, i, hreached, hi⟩ := exists_reached (f := choice) (by decide +kernel)
  have hmem : i ∈ [i] := List.mem_singleton_self i
  have honce : i.filter.PendingOnce := by
    rw [hi]
    exact ⟨by decide +kernel, by decide +kernel⟩
  obtain ⟨b, pool₁, hrun, hstep⟩ := Reached.bind_commutes_with_split hreached hmem honce
  have hsplit := hstep .refl .or
  have hanswer : context.answer (.split .or i.filter) = .ok alternatives := by
    rw [hi]
    decide +kernel
  obtain ⟨hreached₁, -⟩ := hreached.of_run (by simp [Query.arguments]) hrun
  obtain ⟨cs, pool₂, hcs, hfilters, -⟩ :=
    hreached₁.serve_ok (q := .split .or i) (by simp [Query.arguments]) hanswer
  unfold AnsweredInStep at hsplit
  rw [hcs] at hsplit
  obtain ⟨ds, pool₃, hds, hbound⟩ := hsplit
  obtain ⟨c, cs, rfl, -, hrest⟩ := List.map_eq_cons_iff.1 hfilters
  obtain ⟨c', rfl, -⟩ := List.map_eq_singleton_iff.1 hrest
  obtain ⟨d, _, ⟨pool₄, hd⟩, hsecond, rfl⟩ := List.forall₂_cons_left_iff.1 hbound
  obtain ⟨d', _, ⟨pool₅, hd'⟩, hnil, rfl⟩ := List.forall₂_cons_left_iff.1 hsecond
  obtain rfl := List.forall₂_nil_left_iff.1 hnil
  exact ⟨pool, i, b, pool₁, c, c', pool₂, d, d', pool₃, pool₄, pool₅, hreached, hi, hrun, hcs, hds,
    hd, hd'⟩

end Sample

end Pool

end RowFilter
