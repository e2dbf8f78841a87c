import RowFilter.Proofs.CostOrder
import RowFilter.Proofs.Ways

/-!
# Normal forms in order of cost

Reordering goes run by run, and so do the tests for normal forms: no operand ever crosses a
junction of the other kind. So a reordered filter is in the one normal form or in the other exactly
if it was before. Its clauses are those it had, in another order, with their atoms in another order
and the filters inside existence tests reordered in turn. What grouping does to the depth is all
that tells the two apart: the clauses of a reordered filter stand in it as they are, so they can
always be handed out, whereas grouping those of the filter itself may make one too deep.
-/

namespace RowFilter

/-! ## Up to order -/

section Rearranging

variable {α β γ : Type} {R : α → β → Prop}

/-- One by one and in some order, the items of the second list are what the relation gives for
those of the first. -/
def Rearranges (R : α → β → Prop) (xs : List α) (ys : List β) : Prop :=
  ∃ zs, List.Forall₂ R xs zs ∧ zs.Perm ys

theorem Rearranges.length_eq {xs : List α} {ys : List β} (h : Rearranges R xs ys) :
    xs.length = ys.length := by
  obtain ⟨zs, hzs, hperm⟩ := h
  exact hzs.length_eq.trans hperm.length_eq

/-- Lists that are related item by item are so in another order. -/
theorem rearranges_map {items : List γ} {ys : List β} {a : γ → α} {b : γ → β}
    (h : ∀ x ∈ items, R (a x) (b x)) (hperm : (items.map b).Perm ys) :
    Rearranges R (items.map a) ys := by
  refine ⟨items.map b, ?_, hperm⟩
  rw [List.forall₂_map_left_iff, List.forall₂_map_right_iff, List.forall₂_same]
  exact h

end Rearranging

namespace Filter

variable {e : String} {kind outer : Junction} {f k : Filter} {fs : List Filter}

/-! ## Tests that go along runs -/

section Tests

variable {p : Filter → Bool}

/-- What holds of a junction when it holds of both operands holds of a run when it holds of all
its operands. -/
theorem all_runOf (hp : ∀ e l r, p (junction e kind l r) = (p l && p r)) (f : Filter) :
    (f.runOf kind).all p = p f := by
  induction f with
  | opened | closed | compare | existence => exact Bool.and_true _
  | junction e k left right ihl ihr =>
    rw [runOf]
    split
    · next hk =>
      rw [List.all_append, ihl, ihr, hk, hp]
    · exact Bool.and_true _

theorem all_groupLeft (hp : ∀ e l r, p (junction e kind l r) = (p l && p r)) (hfs : fs ≠ []) :
    p (groupLeft e kind fs) = fs.all p := by
  refine groupLeft_induct ?_ ?_ hfs
  · intro f
    exact (Bool.and_true _).symm
  · intro fs g ih
    rw [hp, ih, List.all_append, List.all_cons, List.all_nil, Bool.and_true]

/-- What holds of a run exactly if it holds of all its operands is not changed by their order. -/
theorem test_inCostOrder_run {l r : Filter}
    (hp : ∀ e l r, p (junction e kind l r) = (p l && p r))
    (ih : ∀ g ∈ (junction e kind l r).runOf kind, p g.inCostOrder = p g) :
    p (junction e kind l r).inCostOrder = p (junction e kind l r) := by
  have hoperands : (((junction e kind l r).runOf kind).map inCostOrder).all p =
      ((junction e kind l r).runOf kind).all p := by
    rw [List.all_map, Bool.eq_iff_iff, List.all_eq_true, List.all_eq_true]
    refine forall₂_congr fun g hg => ?_
    rw [Function.comp_apply, ih g hg]
  rw [inCostOrder_junction, all_groupLeft hp (ordered_ne_nil e kind l r),
    (cheapestFirst_perm _ _).all_eq, hoperands, all_runOf hp]

end Tests

/-- The order changes no kinds of junctions. -/
theorem isFlat_inCostOrder (k : Junction) (f : Filter) :
    f.inCostOrder.isFlat k = f.isFlat k := by
  induction f using runs_induct with
  | opened | closed | compare => simp
  | existence e c negated sub =>
    rw [inCostOrder_existence]
    rfl
  | run e kind l r ih =>
    by_cases hk : kind = k
    · subst hk
      apply test_inCostOrder_run _ ih
      intro e l r
      simp [isFlat]
    · -- the junction itself is of another kind, before and after
      obtain ⟨l', r', heq⟩ := exists_inCostOrder e kind l r
      rw [heq]
      simp [isFlat, hk]

/-- Reordering keeps either normal form, and gives none. -/
theorem isNormal_inCostOrder (outer : Junction) (f : Filter) :
    f.inCostOrder.isNormal outer = f.isNormal outer := by
  induction f using runs_induct with
  | opened | closed | compare => simp
  | existence e c negated sub =>
    rw [inCostOrder_existence]
    rfl
  | run e kind l r ih =>
    by_cases hkind : kind = outer
    · subst hkind
      exact test_inCostOrder_run (fun e l r => isNormal_outer e kind l r) ih
    · obtain ⟨l', r', heq⟩ := exists_inCostOrder e kind l r
      have hflat := isFlat_inCostOrder outer.dual (junction e kind l r)
      rw [heq] at hflat ⊢
      rw [isNormal_inner e hkind, isNormal_inner e hkind, hflat]

/-- What is in order of cost is grouped to the left. -/
theorem leftDeep_inCostOrder (f : Filter) : f.inCostOrder.LeftDeep := by
  induction f using runs_induct with
  | opened | closed | compare =>
    apply IsAtom.leftDeep
    rw [isAtom_iff]
    simp [atoms]
  | existence e c negated sub =>
    apply IsAtom.leftDeep
    rw [inCostOrder_existence, isAtom_iff]
    rfl
  | run e kind l r ih =>
    have hmem : ∀ g ∈ cheapestFirst cost (((junction e kind l r).runOf kind).map inCostOrder),
        ∃ f ∈ (junction e kind l r).runOf kind, f.inCostOrder = g := by
      intro g hg
      rw [(cheapestFirst_perm _ _).mem_iff] at hg
      exact List.mem_map.1 hg
    rw [inCostOrder_junction]
    apply leftDeep_groupLeft (ordered_ne_nil e kind l r)
    · intro g hg
      obtain ⟨f, hf, rfl⟩ := hmem g hg
      exact ih f hf
    · intro g hg
      obtain ⟨f, hf, rfl⟩ := hmem g hg
      exact inCostOrder_ne_junction (mem_runOf hf).2

/-! ## Operands and atoms in another order -/

/-- The operands of a run are its operands before, each in order and in another order. -/
theorem perm_runOf_inCostOrder (kind : Junction) (f : Filter) :
    (f.inCostOrder.runOf kind).Perm ((f.runOf kind).map inCostOrder) := by
  by_cases h : ∃ e l r, f = junction e kind l r
  · obtain ⟨e, l, r, rfl⟩ := h
    rw [runOf_inCostOrder_junction]
    exact cheapestFirst_perm _ _
  · have hother : ∀ e l r, f ≠ junction e kind l r := fun e l r heq => h ⟨e, l, r, heq⟩
    rw [runOf_eq_singleton hother, runOf_eq_singleton (inCostOrder_ne_junction hother)]
    rfl

/-- The atoms of a run are those of its operands. -/
theorem flatMap_atoms_runOf (kind : Junction) (f : Filter) :
    (f.runOf kind).flatMap atoms = f.atoms :=
  flatMap_runOf (fun _ _ _ => rfl) f

/-- The atoms are the atoms before, each in order and in another order. -/
theorem perm_atoms_inCostOrder (f : Filter) :
    f.inCostOrder.atoms.Perm (f.atoms.map inCostOrder) := by
  induction f using runs_induct with
  | opened | closed | compare => simp [atoms]
  | existence e c negated sub =>
    rw [inCostOrder_existence]
    simp [atoms]
  | run e kind l r ih =>
    have hoperands : ((((junction e kind l r).runOf kind).map inCostOrder).flatMap atoms).Perm
        (((junction e kind l r).runOf kind).flatMap fun g => g.atoms.map inCostOrder) := by
      rw [List.flatMap_map]
      exact List.Perm.flatMap_left _ ih
    rw [← flatMap_atoms_runOf kind (junction e kind l r).inCostOrder,
      ← flatMap_atoms_runOf kind (junction e kind l r), List.map_flatMap]
    exact ((perm_runOf_inCostOrder kind _).flatMap_right _).trans hoperands

/-- Of two operands the dearer one in front goes behind the other. -/
theorem inCostOrder_pair {l r : Filter} (hl : l.runOf kind = [l]) (hr : r.runOf kind = [r])
    (hdear : l.cost.le r.cost = false) :
    (junction e kind l r).inCostOrder = junction e kind r.inCostOrder l.inCostOrder := by
  have hdear' : l.inCostOrder.cost.le r.inCostOrder.cost = false := by
    rw [cost_inCostOrder, cost_inCostOrder]
    exact hdear
  rw [inCostOrder_junction, runOf_junction, hl, hr]
  show groupLeft e kind (cheapestFirst cost [l.inCostOrder, r.inCostOrder]) = _
  rw [cheapestFirst_pair hdear']
  rfl

/-! ## The clauses of filters in normal form -/

/-- An operand of the outer run of a normal form is flat. -/
theorem isFlat_of_mem_runOf (hnormal : f.isNormal outer = true) (hk : k ∈ f.runOf outer) :
    k.isFlat outer.dual = true := by
  rw [← all_runOf (fun e l r => isNormal_outer e outer l r), List.all_eq_true] at hnormal
  have hself := hnormal k hk
  cases k with
  | opened | closed | compare | existence => rfl
  | junction e kind l r =>
    have hkind : kind ≠ outer := by
      rintro rfl
      exact (mem_runOf hk).2 e l r rfl
    rwa [isNormal_inner e hkind] at hself

/-- The clauses of a filter in normal form are the atoms of the operands of its outer run. -/
theorem expand_of_isNormal (hnormal : f.isNormal outer = true) :
    f.expand outer = (f.runOf outer).map atoms := by
  rw [← flatMap_runOf (fun e l r => expand_outer e outer l r) f, ← List.flatMap_pure_eq_map]
  exact List.flatMap_congr fun k hk => expand_of_isFlat (isFlat_of_mem_runOf hnormal hk)

/-- The clauses of a normal filter are its operands, grouped to the left. -/
theorem clauseFilters_of_isNormal (hnormal : f.isNormal outer = true) :
    f.clauseFilters outer =
      (f.runOf outer).map fun k => groupLeft f.entity outer.dual k.atoms := by
  rw [clauseFilters, expand_of_isNormal hnormal, List.map_map]
  rfl

/-- If it is grouped to the left, the operands are the clauses as they stand. -/
theorem InShape.clauseFilters_eq_runOf (hf : f.InShape) (hnormal : f.isNormal outer = true)
    (hdeep : f.LeftDeep) : f.clauseFilters outer = f.runOf outer := by
  rw [clauseFilters_of_isNormal hnormal, List.map_congr_left fun k hk => ?_, List.map_id']
  have hin := (mem_runOf hk).1
  have hkdeep : k.LeftDeep := fun e kind l r hinner => hdeep e kind l r (hinner.trans hin)
  rw [← hin.entity_eq hf]
  exact (hin.inShape hf).groupLeft_atoms (isFlat_of_mem_runOf hnormal hk) hkdeep

end Filter

/-! ## Within the limits -/

namespace Context

variable {ctx : Context} {outer : Junction} {f : Filter} {fs : List Filter}

/-- What becomes of an atom: the filter inside an existence test is reordered, anything else stays
as it is. -/
inductive ReordersAtom (ctx : Context) : Filter → Filter → Prop where
  | same {a : Filter} (h : ∀ e c negated sub, a ≠ .existence e c negated sub) :
    ReordersAtom ctx a a
  | inside {e : String} {c : Chain} {negated : Bool} {sub sub' : Filter}
      (h : ctx.optimize sub = .ok sub') :
    ReordersAtom ctx (.existence e c negated sub) (.existence e c negated sub')

/-- The atoms of the second clause are what becomes of those of the first, in some order. -/
def ReordersClause (ctx : Context) (c d : Filter) : Prop :=
  Rearranges ctx.ReordersAtom c.atoms d.atoms

/-- An atom of a filter that is handed out in order is reordered on its own as it is within. -/
theorem reordersAtom_of_mem_atoms {a : Filter} (hf : f.InShape)
    (hdepth : f.depth ≤ ctx.config.maxDepth) (hordered : f.inCostOrder.depth ≤ ctx.config.maxDepth)
    (ha : a ∈ f.atoms) : ctx.ReordersAtom a a.inCostOrder := by
  have hin := Filter.standsIn_of_mem_atoms ha
  have hshape := hin.inShape hf
  have hle := Nat.le_trans hin.depth_le hdepth
  have hmem : a.inCostOrder ∈ f.inCostOrder.atoms :=
    f.perm_atoms_inCostOrder.mem_iff.2 (List.mem_map_of_mem ha)
  have hle' := Nat.le_trans (Filter.standsIn_of_mem_atoms hmem).depth_le hordered
  cases a with
  | opened | closed | compare =>
    simp only [Filter.inCostOrder_opened, Filter.inCostOrder_closed, Filter.inCostOrder_compare]
    exact .same fun e c negated sub heq => nomatch heq
  | existence e c negated sub =>
    rw [Filter.inCostOrder_existence] at hle' ⊢
    rw [Filter.depth] at hle hle'
    apply ReordersAtom.inside
    rw [optimize_eq hshape.2.2 (by omega), withinDepth_of_le (by omega)]
  | junction e kind l r => exact absurd rfl (Filter.isAtom_of_mem_atoms ha e kind l r)

/-- The clauses of a reordered normal form are those of the filter, reordered. -/
theorem rearranges_clauseFilters (hf : f.InShape) (hdepth : f.depth ≤ ctx.config.maxDepth)
    (hordered : f.inCostOrder.depth ≤ ctx.config.maxDepth)
    (hnormal : f.isNormal outer = true) :
    Rearranges ctx.ReordersClause (f.clauseFilters outer)
      (f.inCostOrder.clauseFilters outer) := by
  have hnormal' : f.inCostOrder.isNormal outer = true := by
    rw [Filter.isNormal_inCostOrder]
    exact hnormal
  rw [Filter.clauseFilters_of_isNormal hnormal, Filter.clauseFilters_of_isNormal hnormal',
    f.inCostOrder_start.1]
  have hperm := (f.perm_runOf_inCostOrder outer).symm.map
    fun k => Filter.groupLeft f.entity outer.dual k.atoms
  rw [List.map_map] at hperm
  refine rearranges_map ?_ hperm
  intro k hk
  have hatoms : ∀ k : Filter, (Filter.groupLeft f.entity outer.dual k.atoms).atoms = k.atoms :=
    fun k => Filter.atoms_groupLeft_of_atoms k.atoms_ne_nil fun a => Filter.isAtom_of_mem_atoms
  unfold ReordersClause
  rw [hatoms, Function.comp_apply, hatoms, ← List.map_id k.atoms]
  refine rearranges_map ?_ k.perm_atoms_inCostOrder.symm
  intro a ha
  refine reordersAtom_of_mem_atoms hf hdepth hordered ?_
  rw [← Filter.flatMap_atoms_runOf outer]
  exact List.mem_flatMap.2 ⟨k, hk, ha⟩

/-- The clauses of a filter in normal form are refused for their number whatever the limit. -/
theorem split_of_isNormal (hshape : f.InShape) (hdepth : f.depth ≤ ctx.config.maxDepth)
    (hnormal : f.isNormal outer = true) :
    ctx.split outer f = (do
      Filter.checkCount ctx.config.maxClauses (f.clauseCount outer)
      ctx.allWithinDepth (f.clauseFilters outer)) := by
  refine split_of_counted hshape hdepth ?_
  intro hmany
  cases hcs : f.clauses outer ctx.config.maxClauses with
  | error err => rw [Filter.clauses_eq_error hcs]
  | ok cs =>
    have hle := Filter.clauseCount_le_of_clauses ctx.config.maxClauses_pos hnormal hcs
    omega

/-- Filters that are each made within the limit, or the error that one of them is not. -/
theorem allWithinDepth_eq_ite (fs : List Filter) :
    ctx.allWithinDepth fs = if ∃ f ∈ fs, ctx.config.maxDepth < f.depth then
        .error (.tooDeep ctx.config.maxDepth)
      else .ok fs := by
  split
  · next hdeep => exact allWithinDepth_of_exists hdeep
  · next hfine =>
    apply allWithinDepth_of_forall
    intro f hf
    exact Nat.not_lt.1 fun hdeep => hfine ⟨f, hf, hdeep⟩

end Context

/-! ## In a session -/

namespace Pool

variable {ctx : Context} {pool : Pool} {held : List Instance}

/-- What a session hands out in order passes the test for either normal form exactly if the
instance does. If the instance is in the normal form, the clauses in order are its clauses, in some
order, each with what becomes of its atoms, in some order. However the session goes on, the clauses
of either are refused for their number exactly if there are too many. Otherwise those in order are
handed out, and those of the instance are unless one of them is too deep. -/
theorem Reached.optimize_keeps_normal_forms (h : Reached ctx pool held) {i : Instance}
    (hi : i ∈ held) {gs : List Instance} {pool' : Pool}
    (hrun : (serve ctx (.optimize i)).run pool = (.ok gs, pool')) :
    ∃ g, gs = [g] ∧ (∀ outer, g.filter.isNormal outer = i.filter.isNormal outer) ∧
      ∀ outer, i.filter.isNormal outer = true →
        Rearranges ctx.ReordersClause (i.filter.clauseFilters outer)
          (g.filter.clauseFilters outer) ∧
        ∀ {pool₁ : Pool} {held₁ : List Instance}, Leads ctx pool' (g :: held) pool₁ held₁ →
          ((serve ctx (.split outer i)).run pool₁).1.map (List.map Instance.filter) =
              (if ctx.config.maxClauses < i.filter.clauseCount outer then
                .error (.tooManyClauses ctx.config.maxClauses)
              else if ∃ c ∈ i.filter.clauseFilters outer, ctx.config.maxDepth < c.depth then
                .error (.tooDeep ctx.config.maxDepth)
              else .ok (i.filter.clauseFilters outer)) ∧
            ((serve ctx (.split outer g)).run pool₁).1.map (List.map Instance.filter) =
              (if ctx.config.maxClauses < i.filter.clauseCount outer then
                .error (.tooManyClauses ctx.config.maxClauses)
              else .ok (g.filter.clauseFilters outer)) := by
  have hargs : ∀ j ∈ (Query.optimize i).arguments, j ∈ held := by
    simpa [Query.arguments] using hi
  have hfits := h.fits i hi
  obtain ⟨g, rfl, hoptimize, hreached⟩ := h.of_run_one hargs rfl hrun
  rw [Context.optimize_eq hfits.inShape hfits.depth] at hoptimize
  obtain ⟨hg, hdepth⟩ := Context.withinDepth_eq_ok.1 hoptimize
  have hgfits := hreached.fits g List.mem_cons_self
  refine ⟨g, rfl, ?test, ?clauses⟩
  case test =>
    intro outer
    rw [← hg, Filter.isNormal_inCostOrder]
  case clauses =>
    intro outer hnormal
    have hgnormal : g.filter.isNormal outer = true := by
      rw [← hg, Filter.isNormal_inCostOrder]
      exact hnormal
    have hclauses : Rearranges ctx.ReordersClause (i.filter.clauseFilters outer)
        (g.filter.clauseFilters outer) := by
      rw [← hg] at hdepth ⊢
      exact Context.rearranges_clauseFilters hfits.inShape hfits.depth hdepth hnormal
    have hcount := hclauses.length_eq
    rw [Filter.length_clauseFilters, Filter.length_clauseFilters] at hcount
    -- what is in order is grouped to the left, so that the clauses stand in it and fit the limit
    have hstand : g.filter.clauseFilters outer = g.filter.runOf outer :=
      hgfits.inShape.clauseFilters_eq_runOf hgnormal (hg ▸ i.filter.leftDeep_inCostOrder)
    have hfine : ∀ c ∈ g.filter.clauseFilters outer, c.depth ≤ ctx.config.maxDepth := by
      intro c hc
      rw [hstand] at hc
      exact Nat.le_trans (Filter.mem_runOf hc).1.depth_le hdepth
    refine ⟨hclauses, ?_⟩
    intro pool₁ held₁ hleads
    have hreached₁ := hleads.reached hreached
    have hsplit : ∀ j ∈ held₁,
        ((serve ctx (.split outer j)).run pool₁).1.map (List.map Instance.filter) =
          ctx.split outer j.filter :=
      fun j hj => hreached₁.serve_eq (by simpa [Query.arguments] using hj)
    constructor
    · rw [hsplit i (hleads.mem i (List.mem_cons_of_mem g hi)),
        Context.split_of_isNormal hfits.inShape hfits.depth hnormal,
        Context.allWithinDepth_eq_ite]
      unfold Filter.checkCount
      split <;> rfl
    · rw [hsplit g (hleads.mem g List.mem_cons_self),
        Context.split_of_isNormal hgfits.inShape hgfits.depth hgnormal,
        Context.allWithinDepth_of_forall hfine, ← hcount]
      unfold Filter.checkCount
      split <;> rfl

/-! ### A clause that goes behind another -/

namespace Sample

/-- Two clauses with the dear one in front, and so at every level. -/
def dearFirst : Filter :=
  .junction "order" .or
    (.junction "order" .and (withoutLine totalOfOrder amount) (total .eq)) (total .gt)

/-- The same with the cheap one in front. -/
def cheapFirst : Filter :=
  .junction "order" .or (total .gt)
    (.junction "order" .and (total .eq) (withoutLine amount totalOfOrder))

theorem inCostOrder_dearFirst : dearFirst.inCostOrder = cheapFirst := by
  have hinside : (withoutLine totalOfOrder amount).inCostOrder =
      withoutLine amount totalOfOrder := by
    rw [withoutLine, Filter.inCostOrder_existence, Filter.inCostOrder_pair rfl rfl (by decide),
      totalOfOrder, amount, Filter.inCostOrder_compare, Filter.inCostOrder_compare]
    rfl
  rw [dearFirst, Filter.inCostOrder_pair rfl rfl (by decide),
    Filter.inCostOrder_pair rfl rfl (by decide), hinside, total, total, Filter.inCostOrder_compare,
    Filter.inCostOrder_compare]
  rfl

/-- The clauses change places, and so do the atoms of one of them and the comparisons inside. The
filter is a disjunctive form and stays one, and it becomes no conjunctive one. -/
theorem optimize_keeps_normal_forms_dearFirst :
    ∃ pool i g pool', Reached context pool [i] ∧ i.filter = dearFirst ∧
      (serve context (.optimize i)).run pool = (.ok [g], pool') ∧ g.filter = cheapFirst ∧
      i.filter.isNormal .or = true ∧ g.filter.isNormal .or = true ∧
      i.filter.isNormal .and = false ∧ g.filter.isNormal .and = false ∧
      ((serve context (.split .or i)).run pool').1.map (List.map Instance.filter) =
        .ok [.junction "order" .and (withoutLine totalOfOrder amount) (total .eq), total .gt] ∧
      ((serve context (.split .or g)).run pool').1.map (List.map Instance.filter) =
        .ok [total .gt, .junction "order" .and (total .eq) (withoutLine amount totalOfOrder)] := by
  obtain ⟨pool, i, hreached, hi⟩ := exists_reached (f := dearFirst) (by decide +kernel)
  have hmem : i ∈ [i] := List.mem_singleton_self i
  have hfits := hreached.fits i hmem
  have hanswer : context.answer (.optimize i.filter) = .ok [cheapFirst] := by
    refine bind_eq_ok.2 ⟨cheapFirst, ?_, rfl⟩
    rw [Context.optimize_eq hfits.inShape hfits.depth, hi, inCostOrder_dearFirst]
    decide +kernel
  obtain ⟨g, pool', hrun, hg, -⟩ :=
    hreached.serve_one (q := .optimize i) (by simp [Query.arguments]) hanswer
  obtain ⟨g', hg', htest, hforms⟩ := Reached.optimize_keeps_normal_forms hreached hmem hrun
  obtain rfl := List.singleton_inj.1 hg'
  have hdisjunctive : i.filter.isNormal .or = true := by
    rw [hi]
    rfl
  have hconjunctive : i.filter.isNormal .and = false := by
    rw [hi]
    rfl
  obtain ⟨-, hsplits⟩ := hforms .or hdisjunctive
  obtain ⟨hsplit, hsplit'⟩ := hsplits .refl
  refine ⟨pool, i, g, pool', hreached, hi, hrun, hg, hdisjunctive, (htest .or).trans hdisjunctive,
    hconjunctive, (htest .and).trans hconjunctive, ?_, ?_⟩
  · rw [hsplit, hi]
    decide +kernel
  · rw [hsplit', hg, hi]
    decide +kernel

end Sample

end Pool

end RowFilter
