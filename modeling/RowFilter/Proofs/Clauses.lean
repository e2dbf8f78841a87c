import RowFilter.Proofs.Evaluation
import RowFilter.Proofs.Grouping
import RowFilter.Proofs.Operands

/-!
# Clauses and their limits

Without limits every filter has a normal form: its clauses are as many as the sum over outer
junctions and the product over inner ones says, and there is always one. The limits are checked
along the way, on the clauses of every part and at every junction that is built. That comes to the
same as checking the result: no part has more clauses than the whole, and no clause is deeper than
the normal form. So a normal form is refused exactly if it has too many clauses or is too deep.
-/

namespace RowFilter

namespace Filter

variable {e : String} {kind outer : Junction} {f a : Filter} {c : List Filter} {limit : Nat}

/-! ## The clauses without a limit -/

/-- The clauses of the normal form with this outer junction, however many they are. -/
def expand (outer : Junction) : Filter → List (List Filter)
  | junction _ kind left right =>
    if kind = outer then left.expand outer ++ right.expand outer
    else distribute (left.expand outer) (right.expand outer)
  | f => [[f]]

/-- The number of clauses: the sum over outer junctions, the product over inner ones. -/
def clauseCount (outer : Junction) : Filter → Nat
  | junction _ kind left right =>
    if kind = outer then left.clauseCount outer + right.clauseCount outer
    else left.clauseCount outer * right.clauseCount outer
  | _ => 1

/-- The clauses of an outer junction are those of its operands. -/
theorem expand_outer (e : String) (outer : Junction) (left right : Filter) :
    (junction e outer left right).expand outer = left.expand outer ++ right.expand outer :=
  if_pos rfl

/-- The clauses of an inner junction are the products of those of its operands. -/
theorem expand_inner (e : String) (h : kind ≠ outer) (left right : Filter) :
    (junction e kind left right).expand outer =
      distribute (left.expand outer) (right.expand outer) :=
  if_neg h

theorem length_distribute {α : Type} (ls rs : List (List α)) :
    (distribute ls rs).length = ls.length * rs.length := by
  simp [distribute, List.length_flatMap]

/-- The clauses are as many as are counted. -/
theorem length_expand (outer : Junction) (f : Filter) :
    (f.expand outer).length = f.clauseCount outer := by
  induction f with
  | opened | closed | compare | existence => rfl
  | junction e kind left right ihl ihr =>
    by_cases hkind : kind = outer
    · rw [expand, clauseCount, if_pos hkind, if_pos hkind, List.length_append, ihl, ihr]
    · rw [expand, clauseCount, if_neg hkind, if_neg hkind, length_distribute, ihl, ihr]

theorem clauseCount_pos (outer : Junction) (f : Filter) : 0 < f.clauseCount outer := by
  induction f with
  | opened | closed | compare | existence => exact Nat.one_pos
  | junction e kind left right ihl ihr =>
    rw [clauseCount]
    split
    · omega
    · exact Nat.mul_pos ihl ihr

theorem expand_ne_nil (outer : Junction) (f : Filter) : f.expand outer ≠ [] := by
  have hpos := f.clauseCount_pos outer
  rw [← length_expand] at hpos
  exact List.ne_nil_of_length_pos hpos

/-- No clause is empty, and it consists of atoms. -/
theorem mem_expand (h : c ∈ f.expand outer) : c ≠ [] ∧ ∀ a ∈ c, a ∈ f.atoms := by
  induction f generalizing c with
  | opened | closed | compare | existence =>
    rw [List.mem_singleton.1 h]
    exact ⟨List.cons_ne_nil _ _, fun a ha => ha⟩
  | junction e kind left right ihl ihr =>
    rw [expand] at h
    split at h
    · rcases List.mem_append.1 h with h | h
      · obtain ⟨hne, hmem⟩ := ihl h
        exact ⟨hne, fun a ha => List.mem_append_left _ (hmem a ha)⟩
      · obtain ⟨hne, hmem⟩ := ihr h
        exact ⟨hne, fun a ha => List.mem_append_right _ (hmem a ha)⟩
    · obtain ⟨l, hl, r, hr, rfl⟩ := mem_distribute.1 h
      obtain ⟨hne, hlmem⟩ := ihl hl
      obtain ⟨-, hrmem⟩ := ihr hr
      refine ⟨fun hnil => hne (List.append_eq_nil_iff.1 hnil).1, ?_⟩
      intro a ha
      rcases List.mem_append.1 ha with ha | ha
      · exact List.mem_append_left _ (hlmem a ha)
      · exact List.mem_append_right _ (hrmem a ha)

/-- Every atom is in a clause. -/
theorem exists_mem_expand (outer : Junction) (h : a ∈ f.atoms) : ∃ c ∈ f.expand outer, a ∈ c := by
  induction f with
  | opened | closed | compare | existence => exact ⟨_, List.mem_singleton_self _, h⟩
  | junction e kind left right ihl ihr =>
    rw [expand]
    split
    · rcases List.mem_append.1 h with h | h
      · obtain ⟨c, hc, hac⟩ := ihl h
        exact ⟨c, List.mem_append_left _ hc, hac⟩
      · obtain ⟨c, hc, hac⟩ := ihr h
        exact ⟨c, List.mem_append_right _ hc, hac⟩
    · -- there are clauses of the other operand to put it together with
      obtain ⟨l, hl⟩ := List.exists_mem_of_ne_nil _ (left.expand_ne_nil outer)
      obtain ⟨r, hr⟩ := List.exists_mem_of_ne_nil _ (right.expand_ne_nil outer)
      rcases List.mem_append.1 h with h | h
      · obtain ⟨c, hc, hac⟩ := ihl h
        exact ⟨c ++ r, mem_distribute.2 ⟨c, hc, r, hr, rfl⟩, List.mem_append_left _ hac⟩
      · obtain ⟨c, hc, hac⟩ := ihr h
        exact ⟨l ++ c, mem_distribute.2 ⟨l, hl, c, hc, rfl⟩, List.mem_append_right _ hac⟩

/-! ## The limit of clauses -/

theorem checkCount_of_le {count : Nat} (h : count ≤ limit) : checkCount limit count = .ok () :=
  if_neg (Nat.not_lt.2 h)

theorem checkCount_of_lt {count : Nat} (h : limit < count) :
    checkCount limit count = .error (.tooManyClauses limit) :=
  if_pos h

/-- Clauses that are not too many in the end are not refused on the way. -/
theorem clauses_of_le (h : f.clauseCount outer ≤ limit) :
    f.clauses outer limit = .ok (f.expand outer) := by
  induction f with
  | opened | closed | compare | existence => rfl
  | junction e kind left right ihl ihr =>
    have hleft := left.clauseCount_pos outer
    have hright := right.clauseCount_pos outer
    rw [clauseCount] at h
    rw [clauses, expand]
    by_cases hkind : kind = outer
    · rw [if_pos hkind] at h
      rw [ihl (by omega), ihr (by omega), if_pos hkind]
      show (if kind = outer then _ else _) = _
      rw [if_pos hkind, length_expand, length_expand, checkCount_of_le h]
      rfl
    · rw [if_neg hkind] at h
      rw [ihl (Nat.le_trans (Nat.le_mul_of_pos_right _ hright) h),
        ihr (Nat.le_trans (Nat.le_mul_of_pos_left _ hleft) h), if_neg hkind]
      show (if kind = outer then _ else _) = _
      rw [if_neg hkind, length_expand, length_expand,
        checkCount_of_le (Nat.le_trans (Nat.min_le_left _ _) h)]
      rfl

/-- Too many clauses are refused, if the limit is below the greatest count: up to there no product
is cut off unnoticed. -/
theorem clauses_of_lt (hpos : 0 < limit) (hlimit : limit < clauseCountBound)
    (h : limit < f.clauseCount outer) :
    f.clauses outer limit = .error (.tooManyClauses limit) := by
  induction f with
  | opened | closed | compare | existence => exact absurd h (Nat.not_lt.2 hpos)
  | junction e kind left right ihl ihr =>
    rw [clauses]
    by_cases hleft : limit < left.clauseCount outer
    · rw [ihl hleft]
      rfl
    by_cases hright : limit < right.clauseCount outer
    · rw [clauses_of_le (Nat.not_lt.1 hleft), ihr hright]
      rfl
    -- both operands are within the limit, so the check of the junction fails
    rw [clauses_of_le (Nat.not_lt.1 hleft), clauses_of_le (Nat.not_lt.1 hright)]
    rw [clauseCount] at h
    show (if kind = outer then _ else _) = _
    rw [length_expand, length_expand]
    by_cases hkind : kind = outer
    · rw [if_pos hkind] at h ⊢
      rw [checkCount_of_lt h]
      rfl
    · rw [if_neg hkind] at h ⊢
      rw [checkCount_of_lt (by omega)]
      rfl

/-- Whatever the limit, the clauses are those without a limit if they are not refused. -/
theorem clauses_eq_ok {cs : List (List Filter)} (h : f.clauses outer limit = .ok cs) :
    cs = f.expand outer := by
  induction f generalizing cs with
  | opened | closed | compare | existence => exact (Except.ok.inj h).symm
  | junction e kind left right ihl ihr =>
    obtain ⟨ls, hls, h⟩ := bind_eq_ok.1 h
    obtain ⟨rs, hrs, h⟩ := bind_eq_ok.1 h
    rw [expand, ← ihl hls, ← ihr hrs]
    split at h
    · next hkind =>
      obtain ⟨-, -, h⟩ := bind_eq_ok.1 h
      rw [if_pos hkind]
      exact (pure_eq_ok.1 h).symm
    · next hkind =>
      obtain ⟨-, -, h⟩ := bind_eq_ok.1 h
      rw [if_neg hkind]
      exact (pure_eq_ok.1 h).symm

/-- There is but one error. -/
theorem clauses_eq_error {err : FilterError} (h : f.clauses outer limit = .error err) :
    err = .tooManyClauses limit := by
  have hcheck : ∀ {count : Nat}, checkCount limit count = .error err →
      err = .tooManyClauses limit := by
    intro count h
    unfold checkCount at h
    split at h
    · exact (Except.error.inj h).symm
    · cases h
  induction f with
  | opened | closed | compare | existence => cases h
  | junction e kind left right ihl ihr =>
    rcases bind_eq_error.1 h with h | ⟨ls, -, h⟩
    · exact ihl h
    rcases bind_eq_error.1 h with h | ⟨rs, -, h⟩
    · exact ihr h
    split at h
    · rcases bind_eq_error.1 h with h | ⟨u, -, h⟩
      · exact hcheck h
      · cases h
    · rcases bind_eq_error.1 h with h | ⟨u, -, h⟩
      · exact hcheck h
      · cases h

/-! ## The normal form without limits -/

/-- The clauses, each as a junction grouped to the left. -/
def clauseFilters (outer : Junction) (f : Filter) : List Filter :=
  (f.expand outer).map (groupLeft f.entity outer.dual)

/-- The normal form with this outer junction, grouped to the left. -/
def normalized (outer : Junction) (f : Filter) : Filter :=
  groupLeft f.entity outer (f.clauseFilters outer)

theorem length_clauseFilters (outer : Junction) (f : Filter) :
    (f.clauseFilters outer).length = f.clauseCount outer := by
  rw [clauseFilters, List.length_map, length_expand]

/-- The open and the closed filter are their own only clause, anything else has proper atoms. -/
theorem proper_or_expand (outer : Junction) (f : Filter) :
    f.Proper ∨ f.expand outer = [[f]] := by
  cases f with
  | opened | closed => exact .inr rfl
  | compare | existence | junction => exact .inl ⟨rfl, rfl⟩

/-- A clause can be joined. -/
theorem InShape.joinable_of_mem_expand (hf : f.InShape) (h : c ∈ f.expand outer) :
    Joinable f.entity c := by
  rcases f.proper_or_expand outer with hproper | hself
  · have hin : ∀ a ∈ c, a.StandsIn f := fun a ha => standsIn_of_mem_atoms ((mem_expand h).2 a ha)
    exact ⟨fun a ha => (hin a ha).entity_eq hf, fun a ha => .inl ((hin a ha).proper hf hproper)⟩
  · rw [hself] at h
    rw [List.mem_singleton.1 h]
    exact joinable_singleton rfl

/-- So can the clauses. -/
theorem InShape.joinable_clauseFilters (hf : f.InShape) :
    Joinable f.entity (f.clauseFilters outer) := by
  rcases f.proper_or_expand outer with hproper | hself
  · constructor
    · intro k hk
      obtain ⟨c, hc, rfl⟩ := List.mem_map.1 hk
      exact entity_groupLeft (hf.joinable_of_mem_expand hc).entity
    · intro k hk
      obtain ⟨c, hc, rfl⟩ := List.mem_map.1 hk
      obtain ⟨hne, hmem⟩ := mem_expand hc
      left
      apply proper_groupLeft hne
      intro a ha
      exact (standsIn_of_mem_atoms (hmem a ha)).proper hf hproper
  · rw [clauseFilters, hself]
    exact joinable_singleton rfl

end Filter

/-! ## The limit of depth -/

namespace Context

variable {ctx : Context} {outer : Junction} {f : Filter} {cs : List (List Filter)}

/-- Where the clauses are not refused, they are handed out unless one of them is too deep. -/
theorem split_of_clauses (hshape : f.InShape) (hdepth : f.depth ≤ ctx.config.maxDepth)
    (hcs : f.clauses outer ctx.config.maxClauses = .ok cs) :
    ctx.split outer f = ctx.allWithinDepth (f.clauseFilters outer) := by
  unfold split
  rw [hcs, Filter.clauses_eq_ok hcs]
  apply mapM_withinDepth
  intro c hc
  apply joinAll_eq (hshape.joinable_of_mem_expand hc)
  intro a ha
  exact Nat.le_trans (Filter.standsIn_of_mem_atoms ((Filter.mem_expand hc).2 a ha)).depth_le hdepth

/-- What is handed out is the clauses. -/
theorem split_eq_ok {fs : List Filter} (hshape : f.InShape) (hdepth : f.depth ≤ ctx.config.maxDepth)
    (h : ctx.split outer f = .ok fs) : fs = f.clauseFilters outer := by
  obtain ⟨cs, hcs, -⟩ := bind_eq_ok.1 h
  rw [split_of_clauses hshape hdepth hcs] at h
  unfold allWithinDepth at h
  split at h
  · exact (Except.ok.inj h).symm
  · cases h

/-- And so is the normal form. -/
theorem normalForm_of_clauses (hshape : f.InShape) (hdepth : f.depth ≤ ctx.config.maxDepth)
    (hcs : f.clauses outer ctx.config.maxClauses = .ok cs) :
    ctx.normalForm outer f = ctx.withinDepth (f.normalized outer) := by
  unfold normalForm
  rw [split_of_clauses hshape hdepth hcs]
  exact allWithinDepth_joinAll hshape.joinable_clauseFilters

/-- Where too many clauses are refused for their number, the clauses are counted first, then they
are made. -/
theorem split_of_counted (hshape : f.InShape) (hdepth : f.depth ≤ ctx.config.maxDepth)
    (hrefused : ctx.config.maxClauses < f.clauseCount outer →
      f.clauses outer ctx.config.maxClauses = .error (.tooManyClauses ctx.config.maxClauses)) :
    ctx.split outer f = (do
      Filter.checkCount ctx.config.maxClauses (f.clauseCount outer)
      ctx.allWithinDepth (f.clauseFilters outer)) := by
  by_cases hcount : f.clauseCount outer ≤ ctx.config.maxClauses
  · rw [Filter.checkCount_of_le hcount]
    exact split_of_clauses hshape hdepth (Filter.clauses_of_le hcount)
  · have hmany := Nat.not_le.1 hcount
    unfold split
    rw [Filter.checkCount_of_lt hmany, hrefused hmany]
    rfl

/-- Below the greatest count they always are. -/
theorem split_eq (hshape : f.InShape) (hdepth : f.depth ≤ ctx.config.maxDepth)
    (hlimit : ctx.config.maxClauses < clauseCountBound) :
    ctx.split outer f = (do
      Filter.checkCount ctx.config.maxClauses (f.clauseCount outer)
      ctx.allWithinDepth (f.clauseFilters outer)) :=
  split_of_counted hshape hdepth (Filter.clauses_of_lt ctx.config.maxClauses_pos hlimit)

/-- The normal form is handed out unless there are too many clauses or it is too deep. -/
theorem normalForm_eq (hshape : f.InShape) (hdepth : f.depth ≤ ctx.config.maxDepth)
    (hlimit : ctx.config.maxClauses < clauseCountBound) :
    ctx.normalForm outer f = (do
      Filter.checkCount ctx.config.maxClauses (f.clauseCount outer)
      ctx.withinDepth (f.normalized outer)) := by
  unfold normalForm
  rw [split_eq hshape hdepth hlimit, bind_assoc,
    allWithinDepth_joinAll hshape.joinable_clauseFilters]
  rfl

end Context

/-! ## In a session -/

namespace Pool

variable {ctx : Context} {pool : Pool} {held : List Instance}

/-- If the limit of clauses is below the greatest count, a normal form is refused for its clauses
exactly if there are more of them than that, and otherwise for its depth exactly if it is too deep
in the end; its clauses are refused for their number exactly if it is, and otherwise for their depth
exactly if one of them is too deep. There is no other error. What is handed out is as many clauses
as were counted, one at least. -/
theorem Reached.normal_forms_within_limits (h : Reached ctx pool held) {i : Instance}
    (hi : i ∈ held) (hlimit : ctx.config.maxClauses < clauseCountBound) (outer : Junction) :
    ((serve ctx (.normalForm outer i)).run pool).1.map (List.map Instance.filter) =
        (if ctx.config.maxClauses < i.filter.clauseCount outer then
          .error (.tooManyClauses ctx.config.maxClauses)
        else if ctx.config.maxDepth < (i.filter.normalized outer).depth then
          .error (.tooDeep ctx.config.maxDepth)
        else .ok [i.filter.normalized outer]) ∧
      ((serve ctx (.split outer i)).run pool).1.map (List.map Instance.filter) =
        (if ctx.config.maxClauses < i.filter.clauseCount outer then
          .error (.tooManyClauses ctx.config.maxClauses)
        else if ∃ c ∈ i.filter.clauseFilters outer, ctx.config.maxDepth < c.depth then
          .error (.tooDeep ctx.config.maxDepth)
        else .ok (i.filter.clauseFilters outer)) ∧
      (i.filter.clauseFilters outer).length = i.filter.clauseCount outer ∧
      0 < i.filter.clauseCount outer := by
  have hfits := h.fits i hi
  refine ⟨?normalForm, ?split, i.filter.length_clauseFilters outer,
    i.filter.clauseCount_pos outer⟩
  case normalForm =>
    rw [h.serve_eq (q := .normalForm outer i) (by simpa [Query.arguments] using hi)]
    show (do return [← ctx.normalForm outer i.filter]) = _
    rw [Context.normalForm_eq hfits.inShape hfits.depth hlimit]
    rw [← Context.one_withinDepth]
    unfold Filter.checkCount
    split <;> rfl
  case split =>
    rw [h.serve_eq (q := .split outer i) (by simpa [Query.arguments] using hi)]
    show ctx.split outer i.filter = _
    rw [Context.split_eq hfits.inShape hfits.depth hlimit]
    unfold Filter.checkCount
    rcases ctx.allWithinDepth_cases (i.filter.clauseFilters outer) with hall | hdeep
    · have hnone : ¬∃ c ∈ i.filter.clauseFilters outer, ctx.config.maxDepth < c.depth := by
        rintro ⟨c, hc, hdeep⟩
        exact absurd (hall c hc) (Nat.not_le.2 hdeep)
      rw [Context.allWithinDepth_of_forall hall, if_neg hnone]
      split <;> rfl
    · rw [Context.allWithinDepth_of_exists hdeep, if_pos hdeep]
      split <;> rfl

namespace Sample

/-- The same schema, with normal forms of one clause at most. -/
def narrow : Context :=
  { context with config := { context.config with maxClauses := 1, maxClauses_pos := Nat.one_pos } }

/-- The two clauses of the choice are one too many in the one context, and in the other they are
handed out. -/
theorem normal_forms_within_limits_choice :
    ∃ pool i pool' j, Reached narrow pool [i] ∧ i.filter = choice ∧
      narrow.config.maxClauses < clauseCountBound ∧
      ((serve narrow (.normalForm .or i)).run pool).1.map (List.map Instance.filter) =
        .error (.tooManyClauses 1) ∧
      Reached context pool' [j] ∧ j.filter = choice ∧
      ((serve context (.split .or j)).run pool').1.map (List.map Instance.filter) =
        .ok alternatives := by
  have hback : narrow.answer (.rebuild choice.outline) = .ok [choice] := by
    decide +kernel
  obtain ⟨pool, i, hreached, hi⟩ := Reached.exists_of_rebuild hback
  obtain ⟨pool', j, hreached', hj⟩ := exists_reached (f := choice) (by decide +kernel)
  have hlimit : narrow.config.maxClauses < clauseCountBound := by decide
  obtain ⟨hform, -⟩ :=
    Reached.normal_forms_within_limits hreached (List.mem_singleton_self i) hlimit .or
  obtain ⟨-, hsplit, -⟩ :=
    Reached.normal_forms_within_limits hreached' (List.mem_singleton_self j) (by decide) .or
  refine ⟨pool, i, pool', j, hreached, hi, hlimit, ?_, hreached', hj, ?_⟩
  · rw [hform, hi]
    decide +kernel
  · rw [hsplit, hj]
    decide +kernel

end Sample

end Pool

end RowFilter
