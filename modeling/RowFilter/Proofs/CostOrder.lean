import Mathlib.Data.List.Perm.Basic
import RowFilter.Proofs.Complements
import RowFilter.Proofs.Costs
import RowFilter.Proofs.Grouping
import RowFilter.Proofs.Operands
import RowFilter.Proofs.Reordering

/-!
# Filters in order of cost

Without limits, reordering puts the operands of every run into ascending order of cost and groups
the run to the left, inside existence tests too. It keeps what a filter starts with, and its cost,
so a run that is in order already stays as it is: reordering a second time changes nothing. The
depth is checked wherever something is built, but nothing that is built on the way is deeper than
the result, so the reordered filter is handed out unless it is too deep itself.
-/

namespace RowFilter

/-! ## Sorting by cost -/

section Sorting

variable {α : Type}

/-- In ascending order of cost, equally dear ones in the order they had. -/
structure StablySorted (costOf : α → Cost) (items sorted : List α) : Prop where
  perm : sorted.Perm items
  ascending : sorted.Pairwise fun a b => (costOf a).le (costOf b) = true
  stable : ∀ c, sorted.filter (fun a => costOf a = c) = items.filter fun a => costOf a = c

/-- The costs are computed once for each item, but that makes no difference. -/
theorem cheapestFirst_eq_mergeSort (costOf : α → Cost) (items : List α) :
    cheapestFirst costOf items = items.mergeSort fun a b => (costOf a).le (costOf b) := by
  unfold cheapestFirst
  rw [List.map_mergeSort (s := fun a b => (costOf a).le (costOf b)), List.map_map]
  · exact congrArg (List.mergeSort · _) (List.map_id' items)
  · intro p hp q hq
    obtain ⟨a, -, rfl⟩ := List.mem_map.1 hp
    obtain ⟨b, -, rfl⟩ := List.mem_map.1 hq
    rfl

/-- Putting the cheapest first is sorting by cost, and stably. -/
theorem stablySorted_cheapestFirst (costOf : α → Cost) (items : List α) :
    StablySorted costOf items (cheapestFirst costOf items) := by
  have htrans : ∀ a b c : α, (costOf a).le (costOf b) = true → (costOf b).le (costOf c) = true →
      (costOf a).le (costOf c) = true := fun _ _ _ => Cost.le_trans
  have htotal : ∀ a b : α, ((costOf a).le (costOf b) || (costOf b).le (costOf a)) = true :=
    fun _ _ => Cost.le_total _ _
  have hperm := cheapestFirst_perm costOf items
  have hsort := cheapestFirst_eq_mergeSort costOf items
  refine ⟨hperm, ?ascending, ?stable⟩
  case ascending =>
    rw [hsort]
    exact List.pairwise_mergeSort htrans htotal items
  case stable =>
    intro c
    have hequal : (items.filter fun a => costOf a = c).Pairwise
        fun a b => (costOf a).le (costOf b) = true := by
      apply List.pairwise_of_forall_mem_list
      intro a ha b hb
      have hac := of_decide_eq_true (List.mem_filter.1 ha).2
      have hbc := of_decide_eq_true (List.mem_filter.1 hb).2
      rw [hac, hbc]
      exact c.le_refl
    -- equally dear items are in order already, and sorting keeps what is in order
    have hkept : (items.filter fun a => costOf a = c).Sublist (cheapestFirst costOf items) := by
      rw [hsort]
      exact List.sublist_mergeSort htrans htotal hequal List.filter_sublist
    have hin := hkept.filter fun a => costOf a = c
    rw [List.filter_filter] at hin
    simp only [Bool.and_self] at hin
    exact (hin.eq_of_length (hperm.filter _).length_eq.symm).symm

/-- What is in order stays as it is. -/
theorem cheapestFirst_cheapestFirst (costOf : α → Cost) (items : List α) :
    cheapestFirst costOf (cheapestFirst costOf items) = cheapestFirst costOf items := by
  rw [cheapestFirst_eq_mergeSort]
  exact List.mergeSort_of_pairwise (stablySorted_cheapestFirst costOf items).ascending

end Sorting

namespace Filter

variable {e : String} {kind : Junction} {f l r : Filter} {fs : List Filter}

/-! ## The filter in order of cost -/

/-- The operands of every run in ascending order of cost, after the same was done in each of them,
and the run grouped to the left. -/
def inCostOrder : Filter → Filter
  | existence e c negated sub => existence e c negated sub.inCostOrder
  | junction e kind left right =>
    groupLeft e kind (cheapestFirst cost
      ((left.runOf kind ++ right.runOf kind).attach.map fun operand => operand.1.inCostOrder))
  | f => f
termination_by f => f.depth
decreasing_by
  · exact Nat.lt_succ_self _
  · exact depth_lt_of_mem_runOf operand.2

@[simp] theorem inCostOrder_opened (e : String) : (opened e).inCostOrder = opened e := by
  simp [inCostOrder]

@[simp] theorem inCostOrder_closed (e : String) : (closed e).inCostOrder = closed e := by
  simp [inCostOrder]

@[simp] theorem inCostOrder_compare (l : Leaf) : (compare l).inCostOrder = compare l := by
  simp [inCostOrder]

/-- A test stays, over what is inside in order of cost. -/
@[simp] theorem inCostOrder_existence (e : String) (c : Chain) (negated : Bool) (sub : Filter) :
    (existence e c negated sub).inCostOrder = existence e c negated sub.inCostOrder := by
  rw [inCostOrder]

/-- The operands of a run are put in order of cost, each for itself and then among each other. -/
theorem inCostOrder_junction (e : String) (kind : Junction) (l r : Filter) :
    (junction e kind l r).inCostOrder =
      groupLeft e kind
        (cheapestFirst cost (((junction e kind l r).runOf kind).map inCostOrder)) := by
  rw [inCostOrder, runOf_junction, List.attach_map_val]

/-- Induction over the operands of runs and the filters inside existence tests. -/
theorem runs_induct {motive : Filter → Prop}
    (opened : ∀ e, motive (opened e)) (closed : ∀ e, motive (closed e))
    (compare : ∀ l, motive (compare l))
    (existence : ∀ e c negated sub, motive sub → motive (existence e c negated sub))
    (run : ∀ e kind l r, (∀ g ∈ (junction e kind l r).runOf kind, motive g) →
      motive (junction e kind l r)) (f : Filter) : motive f := by
  induction f using inCostOrder.induct with
  | case1 e c negated sub ih => exact existence e c negated sub ih
  | case2 e kind l r ih =>
    apply run
    intro g hg
    rw [runOf_junction] at hg
    exact ih ⟨g, hg⟩
  | case3 f htest hjunction =>
    cases f with
    | opened e => exact opened e
    | closed e => exact closed e
    | compare l => exact compare l
    | existence e c negated sub => exact absurd rfl (htest e c negated sub)
    | junction e kind l r => exact absurd rfl (hjunction e kind l r)

/-- What a filter starts with stays. -/
theorem exists_inCostOrder (e : String) (kind : Junction) (l r : Filter) :
    ∃ l' r', (junction e kind l r).inCostOrder = junction e kind l' r' := by
  rw [inCostOrder_junction]
  apply exists_groupLeft
  have hl := List.length_pos_of_ne_nil (l.runOf_ne_nil kind)
  have hr := List.length_pos_of_ne_nil (r.runOf_ne_nil kind)
  rw [(cheapestFirst_perm _ _).length_eq, List.length_map, runOf_junction, List.length_append]
  omega

/-- The entity stays, and so does whether the filter is open or closed. -/
theorem inCostOrder_start (f : Filter) :
    f.inCostOrder.entity = f.entity ∧ f.inCostOrder.isOpen = f.isOpen ∧
      f.inCostOrder.isClosed = f.isClosed := by
  cases f with
  | opened | closed | compare => simp
  | existence e c negated sub =>
    rw [inCostOrder_existence]
    exact ⟨rfl, rfl, rfl⟩
  | junction e kind l r =>
    obtain ⟨l', r', heq⟩ := exists_inCostOrder e kind l r
    rw [heq]
    exact ⟨rfl, rfl, rfl⟩

/-- No operand becomes a junction of the surrounding kind. -/
theorem inCostOrder_ne_junction (h : ∀ e l r, f ≠ junction e kind l r) :
    ∀ e l r, f.inCostOrder ≠ junction e kind l r := by
  intro e l' r' heq
  cases f with
  | opened | closed | compare | existence => simp at heq
  | junction e' k l r =>
    obtain ⟨l'', r'', hsame⟩ := exists_inCostOrder e' k l r
    rw [hsame] at heq
    cases heq
    exact h _ l r rfl

/-! ## What the order keeps -/

/-- The run of a filter costs what the dearest of its operands does. -/
theorem dearest_runOf (kind : Junction) (f : Filter) :
    Cost.Dearest f.cost ((f.runOf kind).map cost) := by
  induction f with
  | opened | closed | compare | existence => exact Cost.dearest_singleton _
  | junction e k l r ihl ihr =>
    rw [runOf]
    split
    · rw [List.map_append]
      exact ihl.append ihr
    · exact Cost.dearest_singleton _

/-- However many operands are grouped, the junction costs what the dearest does. -/
theorem dearest_groupLeft (hfs : fs ≠ []) :
    Cost.Dearest (groupLeft e kind fs).cost (fs.map cost) := by
  refine groupLeft_induct ?_ ?_ hfs
  · intro f
    exact Cost.dearest_singleton _
  · intro fs g ih
    rw [List.map_append]
    exact ih.append (Cost.dearest_singleton _)

theorem ordered_ne_nil (e : String) (kind : Junction) (l r : Filter) :
    cheapestFirst cost (((junction e kind l r).runOf kind).map inCostOrder) ≠ [] := by
  intro hnil
  have hperm := cheapestFirst_perm cost (((junction e kind l r).runOf kind).map inCostOrder)
  rw [hnil] at hperm
  exact runOf_ne_nil kind _ (List.map_eq_nil_iff.1 hperm.nil_eq.symm)

/-- The order changes no cost, since the dearest operand is the same in any order. -/
theorem cost_inCostOrder (f : Filter) : f.inCostOrder.cost = f.cost := by
  induction f using runs_induct with
  | opened | closed | compare => simp
  | existence e c negated sub =>
    rw [inCostOrder_existence]
    rfl
  | run e kind l r ih =>
    have hcosts : (((junction e kind l r).runOf kind).map inCostOrder).map cost =
        ((junction e kind l r).runOf kind).map cost := by
      rw [List.map_map]
      exact List.map_congr_left ih
    have hperm := (cheapestFirst_perm cost
      (((junction e kind l r).runOf kind).map inCostOrder)).map cost
    rw [hcosts] at hperm
    rw [inCostOrder_junction]
    exact (dearest_groupLeft (ordered_ne_nil e kind l r)).unique (dearest_runOf kind _) hperm

/-- Whatever is collected from the operands of junctions and from existence tests together with
the filters inside is collected in another order. -/
theorem perm_inCostOrder {α : Type} {collect : Filter → List α}
    (hjunction : ∀ e kind l r, collect (junction e kind l r) = collect l ++ collect r)
    (hexistence : ∀ e c negated sub sub', (collect sub').Perm (collect sub) →
      (collect (existence e c negated sub')).Perm (collect (existence e c negated sub)))
    (f : Filter) : (collect f.inCostOrder).Perm (collect f) := by
  induction f using runs_induct with
  | opened | closed | compare => simp
  | existence e c negated sub ih =>
    rw [inCostOrder_existence]
    exact hexistence e c negated _ _ ih
  | run e kind l r ih =>
    have hoperands : ((((junction e kind l r).runOf kind).map inCostOrder).flatMap collect).Perm
        (((junction e kind l r).runOf kind).flatMap collect) := by
      rw [List.flatMap_map]
      exact List.Perm.flatMap_left _ ih
    rw [inCostOrder_junction, flatMap_groupLeft (hjunction e kind) (ordered_ne_nil e kind l r),
      ← flatMap_runOf (fun e l r => hjunction e kind l r) (junction e kind l r)]
    exact ((cheapestFirst_perm _ _).flatMap_right _).trans hoperands

/-- The comparisons stay, in another order. -/
theorem leaves_inCostOrder (f : Filter) : f.inCostOrder.leaves.Perm f.leaves :=
  perm_inCostOrder leaves_junction (fun _ _ _ _ _ h => h) f

/-- The chains of the existence tests from left to right, each in front of those inside. -/
def existenceChains : Filter → List Chain
  | existence _ c _ sub => c :: sub.existenceChains
  | junction _ _ left right => left.existenceChains ++ right.existenceChains
  | _ => []

/-- The chains of existence tests stay, in another order. -/
theorem existenceChains_inCostOrder (f : Filter) :
    f.inCostOrder.existenceChains.Perm f.existenceChains :=
  perm_inCostOrder (fun _ _ _ _ => rfl) (fun _ c _ _ _ h => h.cons c) f

/-! ## A second time -/

/-- The operands of the ordered run are those in order: no run of the same kind comes up inside. -/
theorem runOf_inCostOrder_junction (e : String) (kind : Junction) (l r : Filter) :
    (junction e kind l r).inCostOrder.runOf kind =
      cheapestFirst cost (((junction e kind l r).runOf kind).map inCostOrder) := by
  rw [inCostOrder_junction, flatMap_groupLeft (runOf_junction e kind) (ordered_ne_nil e kind l r)]
  apply flatMap_eq_self
  intro g hg
  rw [(cheapestFirst_perm _ _).mem_iff] at hg
  obtain ⟨f, hf, rfl⟩ := List.mem_map.1 hg
  exact runOf_eq_singleton (inCostOrder_ne_junction (mem_runOf hf).2)

/-- What is in order of cost stays as it is: its operands have the costs they had, and are sorted
already. -/
theorem inCostOrder_inCostOrder (f : Filter) : f.inCostOrder.inCostOrder = f.inCostOrder := by
  induction f using runs_induct with
  | opened | closed | compare => simp
  | existence e c negated sub ih => rw [inCostOrder_existence, inCostOrder_existence, ih]
  | run e kind l r ih =>
    obtain ⟨l', r', heq⟩ := exists_inCostOrder e kind l r
    have hrun := runOf_inCostOrder_junction e kind l r
    have hordered := inCostOrder_junction e kind l r
    generalize hops : cheapestFirst cost (((junction e kind l r).runOf kind).map inCostOrder) = ops
      at hrun hordered
    have hsame : ops.map inCostOrder = ops := by
      rw [List.map_congr_left fun g hg => ?_, List.map_id']
      rw [← hops, (cheapestFirst_perm _ _).mem_iff] at hg
      obtain ⟨f, hf, rfl⟩ := List.mem_map.1 hg
      exact ih f hf
    rw [heq, inCostOrder_junction, ← heq, hrun, hsame, ← hops, cheapestFirst_cheapestFirst, hops,
      hordered]

end Filter

/-! ## Within the limit -/

namespace Context

open RowFilter.Filter

variable {ctx : Context} {f : Filter}

/-- The operands of a run in order join to the run in order. -/
theorem allWithinDepth_ordered {e : String} {kind : Junction} {fs : List Filter}
    (h : ∀ f ∈ fs, f.entity = e ∧ f.Proper) :
    (do return [← ctx.joinAll e kind (cheapestFirst cost (← ctx.allWithinDepth fs))]) =
      ctx.allWithinDepth [groupLeft e kind (cheapestFirst cost fs)] := by
  have hmem : ∀ f, f ∈ cheapestFirst cost fs ↔ f ∈ fs :=
    fun f => (cheapestFirst_perm cost fs).mem_iff
  rw [allWithinDepth_singleton]
  rcases ctx.allWithinDepth_cases fs with hall | ⟨f, hf, hdeep⟩
  · have hjoinable : Joinable e (cheapestFirst cost fs) :=
      ⟨fun f hf => (h f ((hmem f).1 hf)).1, fun f hf => .inl (h f ((hmem f).1 hf)).2⟩
    have hjoin : ctx.joinAll e kind (cheapestFirst cost fs) =
        ctx.withinDepth (groupLeft e kind (cheapestFirst cost fs)) :=
      joinAll_eq hjoinable fun f hf => hall f ((hmem f).1 hf)
    rw [allWithinDepth_of_forall hall, ← hjoin]
    rfl
  · have hle : f.depth ≤ (groupLeft e kind (cheapestFirst cost fs)).depth :=
      depth_le_groupLeft ((hmem f).2 hf)
    rw [allWithinDepth_of_exists ⟨f, hf, hdeep⟩, withinDepth_of_lt (Nat.lt_of_lt_of_le hdeep hle)]
    rfl

/-- If reordering within the limits gives the one filter in order, so does the whole. -/
theorem optimize_of_reordered
    (h : ctx.reordered none f = ctx.allWithinDepth [f.inCostOrder]) :
    ctx.optimize f = ctx.withinDepth f.inCostOrder := by
  unfold optimize
  rw [h]
  exact allWithinDepth_joinAll (joinable_singleton f.inCostOrder_start.1)

/-- The filter inside an existence test is reordered on its own. -/
theorem reordered_existence (run : Option Junction) (e : String) (c : Chain) (negated : Bool)
    (sub : Filter) :
    ctx.reordered run (.existence e c negated sub) = (do
      let sub' ← ctx.optimize sub
      if sub' = sub then return [.existence e c negated sub]
      else return [← ctx.existence e c negated sub']) := by
  rw [reordered, optimize, bind_assoc]

/-- Reordering gives the operands in order, unless one of them is too deep. -/
theorem reordered_eq (hshape : f.InShape) (hdepth : f.depth ≤ ctx.config.maxDepth)
    (run : Option Junction) :
    ctx.reordered run f =
      ctx.allWithinDepth ((run.elim [f] fun kind => f.runOf kind).map inCostOrder) := by
  induction f generalizing run with
  | opened | closed | compare =>
    have hself := ctx.allWithinDepth_of_forall (List.forall_mem_singleton.2 hdepth)
    cases run <;> simp [reordered, runOf, hself]
  | existence e c negated sub ih =>
    obtain ⟨-, hclosed, hsub⟩ := hshape
    have hrun : (run.elim [Filter.existence e c negated sub] fun kind =>
        (Filter.existence e c negated sub).runOf kind) = [Filter.existence e c negated sub] := by
      cases run <;> rfl
    have hself := withinDepth_of_le hdepth
    rw [depth] at hdepth
    have hinside := optimize_of_reordered (ih hsub (by omega) none)
    rw [hrun, reordered_existence, hinside, List.map_singleton, inCostOrder_existence,
      allWithinDepth_singleton]
    rcases Nat.lt_or_ge ctx.config.maxDepth sub.inCostOrder.depth with hdeep | hfine
    · have hdeeper : ctx.config.maxDepth <
          (Filter.existence e c negated sub.inCostOrder).depth := by
        rw [depth]
        omega
      rw [withinDepth_of_lt hdeep, withinDepth_of_lt hdeeper]
      rfl
    · rw [withinDepth_of_le hfine]
      show (if sub.inCostOrder = sub then _ else _) = _
      by_cases hsame : sub.inCostOrder = sub
      · rw [if_pos hsame, hsame, hself]
        rfl
      · have hopen : sub.inCostOrder.isClosed = false :=
          sub.inCostOrder_start.2.2.trans hclosed
        rw [if_neg hsame, existence_eq hopen]
  | junction e kind l r ihl ihr =>
    have hoperands : ∀ g ∈ (junction e kind l r).runOf kind, g.entity = e ∧ g.Proper := by
      intro g hg
      have hin := (mem_runOf hg).1
      exact ⟨hin.entity_eq hshape, hin.proper hshape ⟨rfl, rfl⟩⟩
    obtain ⟨⟨-, -, hl⟩, -, -, hr⟩ := hshape
    rw [depth] at hdepth
    have hleft := ihl hl (by omega) (some kind)
    have hright := ihr hr (by omega) (some kind)
    rw [Option.elim_some] at hleft hright
    have happend : ctx.allWithinDepth (((junction e kind l r).runOf kind).map inCostOrder) = (do
        return (← ctx.allWithinDepth ((l.runOf kind).map inCostOrder)) ++
          (← ctx.allWithinDepth ((r.runOf kind).map inCostOrder))) := by
      rw [runOf_junction, List.map_append]
      exact allWithinDepth_append _ _
    rw [reordered, hleft, hright]
    by_cases hrun : run = some kind
    · -- inside a run the operands go on to it
      simp only [hrun, if_true, Option.elim_some]
      exact happend.symm
    · -- here the run ends, and it is one operand of whatever is around
      have hself : (run.elim [junction e kind l r] fun k => (junction e kind l r).runOf k) =
          [junction e kind l r] := by
        cases run with
        | none => rfl
        | some k => exact if_neg fun heq => hrun (congrArg some heq.symm)
      rw [hself, List.map_singleton, inCostOrder_junction, ← allWithinDepth_ordered, happend]
      · simp only [hrun, if_false, bind_assoc, pure_bind]
      · intro g hg
        obtain ⟨f, hf, rfl⟩ := List.mem_map.1 hg
        obtain ⟨hentity, hopen, hclosed⟩ := f.inCostOrder_start
        obtain ⟨hfentity, hproper⟩ := hoperands f hf
        exact ⟨hentity.trans hfentity, hopen.trans hproper.1, hclosed.trans hproper.2⟩

/-- Reordering gives the filter in order, unless that is too deep. -/
theorem optimize_eq (hshape : f.InShape) (hdepth : f.depth ≤ ctx.config.maxDepth) :
    ctx.optimize f = ctx.withinDepth f.inCostOrder :=
  optimize_of_reordered (reordered_eq hshape hdepth none)

end Context

/-! ## In a session -/

namespace Pool

variable {ctx : Context} {pool : Pool} {held : List Instance}

/-- A session hands out the reordered filter unless that is too deep, whatever it is built from:
every run sorted by cost, stably, after what is inside, and grouped to the left. Costs are in the
order of the tiers and then of the lengths, and each filter in shape has the cost that is said by
cases of it. The reordered filter costs what the filter does, has the same comparisons and the same
chains of existence tests, and reordering it gives it back however the session goes on. -/
theorem Reached.optimize_sorts_runs (h : Reached ctx pool held) {i : Instance} (hi : i ∈ held) :
    ((serve ctx (.optimize i)).run pool).1.map (List.map Instance.filter) =
        (if ctx.config.maxDepth < i.filter.inCostOrder.depth then
          .error (.tooDeep ctx.config.maxDepth)
        else .ok [i.filter.inCostOrder]) ∧
      (∀ fs, StablySorted Filter.cost fs (cheapestFirst Filter.cost fs)) ∧
      (∀ a b : Cost, a.le b = true ↔ a.NoDearer b) ∧
      (∀ f : Filter, f.InShape → ∀ c, f.Costs c ↔ c = f.cost) ∧
      i.filter.inCostOrder.cost = i.filter.cost ∧
      i.filter.inCostOrder.leaves.Perm i.filter.leaves ∧
      i.filter.inCostOrder.existenceChains.Perm i.filter.existenceChains ∧
      ∀ gs pool', (serve ctx (.optimize i)).run pool = (.ok gs, pool') →
        ∃ g, gs = [g] ∧ ∀ {pool₁ : Pool} {held₁ : List Instance},
          Leads ctx pool' (g :: held) pool₁ held₁ →
            ∃ pool₂, (serve ctx (.optimize g)).run pool₁ = (.ok [g], pool₂) := by
  have hargs : ∀ j ∈ (Query.optimize i).arguments, j ∈ held := by
    simpa [Query.arguments] using hi
  have hfits := h.fits i hi
  have hoptimize := Context.optimize_eq hfits.inShape hfits.depth
  refine ⟨?result, stablySorted_cheapestFirst Filter.cost, fun _ _ => Cost.le_iff,
    fun _ hshape _ => Filter.costs_iff hshape, i.filter.cost_inCostOrder,
    i.filter.leaves_inCostOrder, i.filter.existenceChains_inCostOrder, ?again⟩
  case result =>
    rw [h.serve_eq hargs]
    show (do return [← ctx.optimize i.filter]) = _
    rw [hoptimize]
    exact Context.one_withinDepth _
  case again =>
    intro gs pool' hrun
    obtain ⟨g, rfl, hg, hreached⟩ := h.of_run_one hargs rfl hrun
    obtain ⟨hself, hdepth⟩ := Context.withinDepth_eq_ok.1 (hoptimize.symm.trans hg)
    refine ⟨g, rfl, ?_⟩
    intro pool₁ held₁ hleads
    have hreached₁ := hleads.reached hreached
    have hmem : g ∈ held₁ := hleads.mem g List.mem_cons_self
    have hgfits := hreached₁.fits g hmem
    have hagain : ctx.optimize g.filter = .ok g.filter := by
      rw [Context.optimize_eq hgfits.inShape hgfits.depth, ← hself,
        Filter.inCostOrder_inCostOrder, hself]
      exact Context.withinDepth_of_le hdepth
    apply hreached₁.serve_held (by simpa [Query.arguments] using hmem) hmem
    exact bind_eq_ok.2 ⟨g.filter, hagain, rfl⟩

namespace Sample

/-- The comparison over the join is made last, inside the test, and a second time nothing
changes. -/
theorem optimize_sorts_runs_inside :
    ∃ pool i g pool' pool'', Reached context pool [i] ∧
      i.filter = withoutLine totalOfOrder amount ∧
      (serve context (.optimize i)).run pool = (.ok [g], pool') ∧
      g.filter = withoutLine amount totalOfOrder ∧ g.filter = i.filter.inCostOrder ∧
      (serve context (.optimize g)).run pool' = (.ok [g], pool'') := by
  obtain ⟨pool, i, hreached, hi⟩ :=
    exists_reached (f := withoutLine totalOfOrder amount) (by decide +kernel)
  have hanswer : context.answer (.optimize i.filter) = .ok [withoutLine amount totalOfOrder] := by
    rw [hi]
    exact bind_eq_ok.2 ⟨_, optimize_withoutLine, rfl⟩
  obtain ⟨g, pool', hrun, hg, -⟩ :=
    hreached.serve_one (q := .optimize i) (by simp [Query.arguments]) hanswer
  obtain ⟨hresult, -, -, -, -, -, -, hagain⟩ :=
    Reached.optimize_sorts_runs hreached (List.mem_singleton_self i)
  obtain ⟨g', hg', hlater⟩ := hagain _ _ hrun
  obtain rfl := List.singleton_inj.1 hg'
  obtain ⟨pool'', hrun'⟩ := hlater .refl
  refine ⟨pool, i, g, pool', pool'', hreached, hi, hrun, hg, ?_, hrun'⟩
  rw [hrun] at hresult
  split at hresult
  · cases hresult
  · exact List.singleton_inj.1 (Except.ok.inj hresult)

end Sample

end Pool

end RowFilter
