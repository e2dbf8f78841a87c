import Mathlib.Data.List.Basic
import Mathlib.Data.List.Induction
import RowFilter.Proofs.Steps

/-!
# Filters grouped to the left

Joining several filters builds their junction from the left, and every step on the way is checked
against the greatest depth. But a step only ever makes the filter deeper, so the checks on the way
say no more than one check at the end: what filters join to is the junction grouped to the left,
or it is too deep. Likewise for several filters that are each made within the limit.
-/

namespace RowFilter

theorem flatMap_eq_self {α : Type} {f : α → List α} {xs : List α} (h : ∀ x ∈ xs, f x = [x]) :
    xs.flatMap f = xs := by
  rw [List.flatMap_congr h]
  simp

namespace Filter

/-- The junction of the filters over the entity, grouped to the left; of no filters, the one that
adds nothing to such a junction. -/
def groupLeft (entity : String) (kind : Junction) : List Filter → Filter
  | [] =>
    match kind with
    | .and => opened entity
    | .or => closed entity
  | f :: rest => rest.foldl (junction entity kind) f

/-- Filters over one entity, none of them open or closed unless it is the only one. -/
structure Joinable (entity : String) (fs : List Filter) : Prop where
  entity : ∀ f ∈ fs, f.entity = entity
  proper : ∀ f ∈ fs, f.Proper ∨ fs = [f]

variable {e : String} {kind : Junction} {f g : Filter} {fs : List Filter}

theorem joinable_singleton (h : f.entity = e) : Joinable e [f] where
  entity := List.forall_mem_singleton.2 h
  proper := List.forall_mem_singleton.2 (.inr rfl)

@[simp] theorem groupLeft_singleton (f : Filter) : groupLeft e kind [f] = f := rfl

/-- One more filter behind others stands to the right of their junction. -/
theorem groupLeft_concat (hfs : fs ≠ []) (g : Filter) :
    groupLeft e kind (fs ++ [g]) = junction e kind (groupLeft e kind fs) g := by
  cases fs with
  | nil => exact absurd rfl hfs
  | cons f rest =>
    show (rest ++ [g]).foldl (junction e kind) f = _
    rw [List.foldl_append]
    rfl

/-- Several filters grouped to the left are a junction. -/
theorem exists_groupLeft (h : 1 < fs.length) :
    ∃ l r, groupLeft e kind fs = junction e kind l r := by
  rcases List.eq_nil_or_concat fs with rfl | ⟨fs, g, rfl⟩
  · exact absurd h (Nat.not_lt_zero 1)
  · have hfs : fs ≠ [] := by
      rintro rfl
      exact absurd h (Nat.lt_irrefl 1)
    rw [List.concat_eq_append, groupLeft_concat hfs]
    exact ⟨_, g, rfl⟩

/-- Induction from the left: a single filter, and one more filter behind others. -/
@[elab_as_elim]
theorem groupLeft_induct {motive : List Filter → Filter → Prop}
    (single : ∀ f, motive [f] f)
    (concat : ∀ fs g, motive fs (groupLeft e kind fs) →
      motive (fs ++ [g]) (junction e kind (groupLeft e kind fs) g))
    (hfs : fs ≠ []) : motive fs (groupLeft e kind fs) := by
  induction fs using List.reverseRecOn with
  | nil => exact absurd rfl hfs
  | append_singleton fs g ih =>
    by_cases hnil : fs = []
    · rw [hnil]
      exact single g
    · rw [groupLeft_concat hnil]
      exact concat fs g (ih hnil)

theorem entity_groupLeft (h : ∀ f ∈ fs, f.entity = e) : (groupLeft e kind fs).entity = e := by
  by_cases hfs : fs = []
  · rw [hfs]
    cases kind <;> rfl
  · revert h
    refine groupLeft_induct ?_ ?_ hfs
    · intro f h
      exact h f (List.mem_singleton_self f)
    · intro fs g _ _
      rfl

theorem proper_groupLeft (hfs : fs ≠ []) (h : ∀ f ∈ fs, f.Proper) :
    (groupLeft e kind fs).Proper := by
  revert h
  refine groupLeft_induct ?_ ?_ hfs
  · intro f h
    exact h f (List.mem_singleton_self f)
  · intro fs g _ _
    exact ⟨rfl, rfl⟩

/-- What is collected along a junction is collected along the operands of a run. -/
theorem flatMap_groupLeft {α : Type} {collect : Filter → List α}
    (h : ∀ l r, collect (junction e kind l r) = collect l ++ collect r) (hfs : fs ≠ []) :
    collect (groupLeft e kind fs) = fs.flatMap collect := by
  refine groupLeft_induct ?_ ?_ hfs
  · intro f
    rw [List.flatMap_singleton]
  · intro fs g ih
    rw [h, ih, List.flatMap_append, List.flatMap_singleton]

/-- No operand is deeper than the whole. -/
theorem depth_le_groupLeft (hf : f ∈ fs) : f.depth ≤ (groupLeft e kind fs).depth := by
  have hfs : fs ≠ [] := List.ne_nil_of_mem hf
  revert hf
  refine groupLeft_induct ?_ ?_ hfs
  · intro g hf
    exact Nat.le_of_eq (congrArg depth (List.mem_singleton.1 hf))
  · intro fs g ih hf
    rw [depth]
    rcases List.mem_append.1 hf with hf | hf
    · have hle := ih hf
      omega
    · have heq := congrArg depth (List.mem_singleton.1 hf)
      omega

/-- There is a level for each operand at least. -/
theorem length_le_depth_groupLeft (hfs : fs ≠ []) :
    fs.length ≤ (groupLeft e kind fs).depth := by
  refine groupLeft_induct ?_ ?_ hfs
  · intro f
    exact f.depth_pos
  · intro fs g ih
    rw [List.length_append, List.length_singleton, depth]
    omega

end Filter

namespace Context

variable {ctx : Context} {e : String} {kind : Junction} {f : Filter} {fs : List Filter}

/-! ## One check -/

/-- A filter that is too deep stays too deep whatever is joined to it. -/
theorem joinFrom_eq {left : Filter} {rest : List Filter} (hentity : left.entity = e)
    (hleft : left.Proper) (hrest : ∀ f ∈ rest, f.Proper)
    (hdepth : left.depth ≤ ctx.config.maxDepth) :
    rest.foldlM (ctx.builder.join kind) left =
      ctx.withinDepth (rest.foldl (.junction e kind) left) := by
  induction rest generalizing left with
  | nil =>
    rw [List.foldl_nil, withinDepth_of_le hdepth]
    rfl
  | cons next rest ih =>
    rw [List.foldlM_cons, join_eq hleft (hrest next List.mem_cons_self), hentity]
    by_cases hdeep : (Filter.junction e kind left next).depth ≤ ctx.config.maxDepth
    · rw [withinDepth_of_le hdeep]
      exact ih rfl ⟨rfl, rfl⟩ (fun f hf => hrest f (List.mem_cons_of_mem _ hf)) hdeep
    · -- the first two are too deep already, and what is joined to them only adds levels
      have hle : (Filter.junction e kind left next).depth ≤
          (Filter.groupLeft e kind (.junction e kind left next :: rest)).depth :=
        Filter.depth_le_groupLeft List.mem_cons_self
      have hwhole : ctx.config.maxDepth <
          ((next :: rest).foldl (Filter.junction e kind) left).depth := by
        show _ < (Filter.groupLeft e kind (.junction e kind left next :: rest)).depth
        omega
      rw [withinDepth_of_lt (Nat.not_le.1 hdeep), withinDepth_of_lt hwhole]
      rfl

/-- Filters that join, none of them too deep, join to their junction, or that is too deep. -/
theorem joinAll_eq (h : Filter.Joinable e fs) (hdepth : ∀ f ∈ fs, f.depth ≤ ctx.config.maxDepth) :
    ctx.joinAll e kind fs = ctx.withinDepth (Filter.groupLeft e kind fs) := by
  cases fs with
  | nil =>
    have hdepth : (Filter.groupLeft e kind []).depth ≤ ctx.config.maxDepth := by
      have hpos := ctx.config.maxDepth_pos
      cases kind <;> exact hpos
    rw [withinDepth_of_le hdepth]
    cases kind <;> rfl
  | cons first rest =>
    have hfirst := hdepth first List.mem_cons_self
    cases rest with
    | nil => exact (withinDepth_of_le hfirst).symm
    | cons second rest =>
      have hproper : ∀ f ∈ first :: second :: rest, f.Proper := by
        intro f hf
        rcases h.proper f hf with hf | hsingle
        · exact hf
        · cases hsingle
      exact joinFrom_eq (h.entity first List.mem_cons_self) (hproper first List.mem_cons_self)
        (fun f hf => hproper f (List.mem_cons_of_mem _ hf)) hfirst

/-! ## Many checks -/

/-- The filters, unless one of them is too deep. -/
def allWithinDepth (ctx : Context) (fs : List Filter) : Except FilterError (List Filter) :=
  if ∀ f ∈ fs, f.depth ≤ ctx.config.maxDepth then .ok fs
  else .error (.tooDeep ctx.config.maxDepth)

theorem allWithinDepth_of_forall (h : ∀ f ∈ fs, f.depth ≤ ctx.config.maxDepth) :
    ctx.allWithinDepth fs = .ok fs :=
  if_pos h

theorem allWithinDepth_of_exists (h : ∃ f ∈ fs, ctx.config.maxDepth < f.depth) :
    ctx.allWithinDepth fs = .error (.tooDeep ctx.config.maxDepth) := by
  obtain ⟨f, hf, hdeep⟩ := h
  apply if_neg
  intro hall
  exact absurd (hall f hf) (Nat.not_le.2 hdeep)

/-- All filters are within the limit, or one is not. -/
theorem allWithinDepth_cases (ctx : Context) (fs : List Filter) :
    (∀ f ∈ fs, f.depth ≤ ctx.config.maxDepth) ∨ ∃ f ∈ fs, ctx.config.maxDepth < f.depth := by
  by_cases h : ∀ f ∈ fs, f.depth ≤ ctx.config.maxDepth
  · exact .inl h
  · right
    simpa only [Classical.not_forall, Nat.not_le, exists_prop] using h

/-- Checking filters one after the other, in two parts. -/
theorem allWithinDepth_append (fs gs : List Filter) :
    ctx.allWithinDepth (fs ++ gs) = do
      return (← ctx.allWithinDepth fs) ++ (← ctx.allWithinDepth gs) := by
  rcases ctx.allWithinDepth_cases fs with hfs | ⟨f, hf, hdeep⟩
  · rw [allWithinDepth_of_forall hfs]
    rcases ctx.allWithinDepth_cases gs with hgs | ⟨g, hg, hdeep⟩
    · rw [allWithinDepth_of_forall hgs,
        allWithinDepth_of_forall (List.forall_mem_append.2 ⟨hfs, hgs⟩)]
      rfl
    · rw [allWithinDepth_of_exists ⟨g, hg, hdeep⟩,
        allWithinDepth_of_exists ⟨g, List.mem_append_right _ hg, hdeep⟩]
      rfl
  · rw [allWithinDepth_of_exists ⟨f, hf, hdeep⟩,
      allWithinDepth_of_exists ⟨f, List.mem_append_left _ hf, hdeep⟩]
    rfl

theorem allWithinDepth_singleton (f : Filter) :
    ctx.allWithinDepth [f] = do return [← ctx.withinDepth f] := by
  rcases Nat.lt_or_ge ctx.config.maxDepth f.depth with hdeep | hdepth
  · rw [withinDepth_of_lt hdeep, allWithinDepth_of_exists ⟨f, List.mem_singleton_self f, hdeep⟩]
    rfl
  · rw [withinDepth_of_le hdepth, allWithinDepth_of_forall (List.forall_mem_singleton.2 hdepth)]
    rfl

/-- One filter is refused if it is too deep. -/
theorem one_withinDepth (f : Filter) :
    (do return [← ctx.withinDepth f]) =
      if ctx.config.maxDepth < f.depth then .error (.tooDeep ctx.config.maxDepth) else .ok [f] := by
  rcases Nat.lt_or_ge ctx.config.maxDepth f.depth with hdeep | hdepth
  · rw [withinDepth_of_lt hdeep, if_pos hdeep]
    rfl
  · rw [withinDepth_of_le hdepth, if_neg (Nat.not_lt.2 hdepth)]
    rfl

/-- Making filters within the limit one after the other. -/
theorem mapM_withinDepth {α : Type} {x : α → Except FilterError Filter} {y : α → Filter}
    {items : List α} (h : ∀ a ∈ items, x a = ctx.withinDepth (y a)) :
    items.mapM x = ctx.allWithinDepth (items.map y) := by
  induction items with
  | nil => exact (allWithinDepth_of_forall (List.forall_mem_nil _)).symm
  | cons a items ih =>
    rw [List.mapM_cons, h a List.mem_cons_self, ih fun b hb => h b (List.mem_cons_of_mem _ hb),
      List.map_cons, ← List.singleton_append, allWithinDepth_append, allWithinDepth_singleton]
    cases ctx.withinDepth (y a) with
    | error e => rfl
    | ok f => rfl

/-- Joining filters if they are all within the limit: the one check at the end is enough, since no
operand is deeper than the whole. -/
theorem allWithinDepth_joinAll (h : Filter.Joinable e fs) :
    (do ctx.joinAll e kind (← ctx.allWithinDepth fs)) =
      ctx.withinDepth (Filter.groupLeft e kind fs) := by
  rcases ctx.allWithinDepth_cases fs with hfs | ⟨f, hf, hdeep⟩
  · rw [allWithinDepth_of_forall hfs]
    exact joinAll_eq h hfs
  · have hle : f.depth ≤ (Filter.groupLeft e kind fs).depth := Filter.depth_le_groupLeft hf
    rw [allWithinDepth_of_exists ⟨f, hf, hdeep⟩, withinDepth_of_lt (Nat.lt_of_lt_of_le hdeep hle)]
    rfl

end Context

end RowFilter
