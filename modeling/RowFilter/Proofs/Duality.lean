import RowFilter.Proofs.Evaluation
import RowFilter.Proofs.KeptForms

/-!
# Duality of the normal forms

Complementing a filter exchanges the two junctions and the two sentinels, and leaves everything
that the rewrites look at as it was. So the rewrites with the one outer junction and those with the
other run in step on a filter and on its complement. They give complements of one another, clause
by clause in the same order, and they stop at the same limit.

As in the theory of De Morgan duals, nothing is proved about one of the two junctions alone:
every statement is about an outer junction and its dual.
-/

namespace RowFilter

/-- Only one junction has a given dual. -/
@[simp] theorem Junction.dual_inj {kind outer : Junction} :
    kind.dual = outer.dual ↔ kind = outer := by
  cases kind <;> cases outer <;> simp [dual]

variable {ctx : Context}

/-- The complement decides the other junction where the filter decides the one, and adds nothing to
the other where the filter adds nothing to the one. -/
theorem keepsForm_complement : KeepsForm Junction.dual Filter.complement where
  inj := Junction.dual_inj
  dual _ := rfl
  junction _ _ _ _ := rfl
  isAtom := by
    intro f hf
    cases f with
    | junction e kind l r => exact absurd rfl (hf e kind l r)
    | opened | closed | compare | existence => exact Filter.isAtom_iff.2 rfl
  entity f := f.entity_complement
  depth f := f.depth_complement
  absorbs ctx kind f := by
    cases kind
    · exact f.isOpen_complement
    · exact f.isClosed_complement
  ignores ctx kind f := by
    cases kind
    · exact f.isClosed_complement
    · exact f.isOpen_complement
  unit ctx e kind := by cases kind <;> rfl

namespace Filter

theorem isFlat_complement (kind : Junction) (f : Filter) :
    f.complement.isFlat kind.dual = f.isFlat kind := by
  induction f with
  | opened | closed | compare | existence => rfl
  | junction e k left right ihl ihr => simp [complement, isFlat, ihl, ihr]

/-- The complement is in the one normal form exactly if the filter is in the other. -/
theorem isNormal_complement (outer : Junction) (f : Filter) :
    f.complement.isNormal outer.dual = f.isNormal outer := by
  induction f with
  | opened | closed | compare | existence => rfl
  | junction e kind left right ihl ihr =>
    have hflat := isFlat_complement outer.dual (.junction e kind left right)
    simp only [complement] at hflat
    simp only [complement, isNormal, Junction.dual_inj, ihl, ihr, hflat]

end Filter

/-! ## Normal forms -/

/-- Joining what must be over one entity: that it is not is the same error either way. -/
theorem combine_complement (kind : Junction) (left right : Filter) :
    ctx.builder.combine kind.dual left.complement right.complement =
      (ctx.builder.combine kind left right).map Filter.complement :=
  keepsForm_complement.combine kind left right

namespace Context

/-- The clauses of the complement are the complements of the clauses. -/
theorem split_complement (ctx : Context) (outer : Junction) (f : Filter) :
    ctx.split outer.dual f.complement =
      (ctx.split outer f).map (List.map Filter.complement) :=
  keepsForm_complement.split outer f

theorem normalForm_complement (ctx : Context) (outer : Junction) (f : Filter) :
    ctx.normalForm outer.dual f.complement = (ctx.normalForm outer f).map Filter.complement :=
  keepsForm_complement.normalForm outer f

end Context

/-! ## In a session -/

namespace Pool

variable {pool : Pool} {held : List Instance}

/-- After the two requests, one after the other: the second has failed with the error of the
first, or what it was answered with is, one by one and in order, what the session says are the
complements of what the first was answered with. -/
def AnsweredDually (ctx : Context) (pool : Pool) (q q' : Request) : Prop :=
  match (serve ctx q).run pool with
  | (.error e, pool₁) => ((serve ctx q').run pool₁).1 = .error e
  | (.ok gs, pool₁) =>
    ∃ gs' pool₂, (serve ctx q').run pool₁ = (.ok gs', pool₂) ∧
      List.Forall₂ (fun g g' => ∃ pool₃, (serve ctx (.complement g)).run pool₂ = (.ok [g'], pool₃))
        gs gs'

/-- A dual answer to one instance is one instance, its complement. -/
theorem AnsweredDually.of_run_one {q q' : Request} (h : AnsweredDually ctx pool q q')
    {g : Instance} {pool₁ : Pool} (hrun : (serve ctx q).run pool = (.ok [g], pool₁)) :
    ∃ g' pool₂ pool₃, (serve ctx q').run pool₁ = (.ok [g'], pool₂) ∧
      (serve ctx (.complement g)).run pool₂ = (.ok [g'], pool₃) := by
  unfold AnsweredDually at h
  rw [hrun] at h
  obtain ⟨gs', pool₂, hrun', hopposite⟩ := h
  obtain ⟨g', _, ⟨pool₃, hback⟩, hnil, rfl⟩ := List.forall₂_cons_left_iff.1 hopposite
  obtain rfl := List.forall₂_nil_left_iff.1 hnil
  exact ⟨g', pool₂, pool₃, hrun', hback⟩

/-- Requests that the context answers dually are answered dually in a session. -/
theorem Reached.answeredDually (h : Reached ctx pool held) {q q' : Request}
    (hq : ∀ i ∈ q.arguments, i ∈ held) (hq' : ∀ i ∈ q'.arguments, i ∈ held)
    (hdual : ctx.answer (q'.map Instance.filter) =
      (ctx.answer (q.map Instance.filter)).map (List.map Filter.complement)) :
    AnsweredDually ctx pool q q' :=
  h.answeredInStep (requests_complement ctx) hq hq' hdual

/-- For any two instances that a session holds, and however it goes on once they are complemented:
the normal form of the complement, with the other outer junction, is the complement of the normal
form; its clauses are the complements of the clauses, in the same order; the one is in the one
normal form if the other is in the other; and the other junction of the complements is the
complement of the junction. Where one of these fails, so does its dual, with the same error. -/
theorem Reached.complement_exchanges_junctions (h : Reached ctx pool held) {i j : Instance}
    (hi : i ∈ held) (hj : j ∈ held) :
    ∃ c d pool₁ pool₂, (serve ctx (.complement i)).run pool = (.ok [c], pool₁) ∧
      (serve ctx (.complement j)).run pool₁ = (.ok [d], pool₂) ∧
      ∀ {pool' : Pool} {held' : List Instance}, Leads ctx pool₂ (d :: c :: held) pool' held' →
        ∀ kind : Junction,
          AnsweredDually ctx pool' (.normalForm kind i) (.normalForm kind.dual c) ∧
          AnsweredDually ctx pool' (.split kind i) (.split kind.dual c) ∧
          c.filter.isNormal kind.dual = i.filter.isNormal kind ∧
          AnsweredDually ctx pool' (.combine kind i j) (.combine kind.dual c d) := by
  obtain ⟨c, pool₁, hrun₁, hc, hreached₁⟩ := h.serve_complement hi
  obtain ⟨d, pool₂, hrun₂, hd, hreached₂⟩ :=
    hreached₁.serve_complement (List.mem_cons_of_mem c hj)
  refine ⟨c, d, pool₁, pool₂, hrun₁, hrun₂, ?_⟩
  intro pool' held' hleads kind
  have hreached := hleads.reached hreached₂
  have hi' : i ∈ held' := hleads.mem i (by simp [hi])
  have hj' : j ∈ held' := hleads.mem j (by simp [hj])
  have hc' : c ∈ held' := hleads.mem c (by simp)
  have hd' : d ∈ held' := hleads.mem d (by simp)
  refine ⟨?normalForm, ?split, ?isNormal, ?combine⟩
  case normalForm =>
    refine hreached.answeredDually (by simpa [Query.arguments]) (by simpa [Query.arguments]) ?_
    simp only [Query.map, Context.answer, hc, ctx.normalForm_complement]
    cases ctx.normalForm kind i.filter <;> rfl
  case split =>
    refine hreached.answeredDually (by simpa [Query.arguments]) (by simpa [Query.arguments]) ?_
    simp only [Query.map, Context.answer, hc, ctx.split_complement]
  case isNormal => rw [hc, Filter.isNormal_complement]
  case combine =>
    refine hreached.answeredDually (by simp [Query.arguments, hi', hj'])
      (by simp [Query.arguments, hc', hd']) ?_
    simp only [Query.map, Context.answer, hc, hd, combine_complement]
    cases ctx.builder.combine kind i.filter j.filter <;> rfl

namespace Sample

/-- The disjunctive form of the choice is another filter, and its complement is the conjunctive
form of the complement of the choice. -/
theorem complement_exchanges_choice :
    ∃ pool i j c d pool₁ pool₂ g pool₃ g' pool₄ pool₅, Reached context pool [j, i] ∧
      i.filter = choice ∧ j.filter = .opened "order" ∧
      (serve context (.complement i)).run pool = (.ok [c], pool₁) ∧
      (serve context (.complement j)).run pool₁ = (.ok [d], pool₂) ∧
      (serve context (.normalForm .or i)).run pool₂ = (.ok [g], pool₃) ∧ g.filter ≠ choice ∧
      (serve context (.normalForm .and c)).run pool₃ = (.ok [g'], pool₄) ∧
      (serve context (.complement g)).run pool₄ = (.ok [g'], pool₅) ∧
      AnsweredDually context pool₂ (.combine .and i j) (.combine .or c d) := by
  obtain ⟨pool₀, i, hstart, hi⟩ := exists_reached (f := choice) (by decide +kernel)
  obtain ⟨j, pool, -, hj, hreached⟩ :=
    hstart.serve_one (q := .opened "order") (by simp [Query.arguments]) (f := .opened "order") rfl
  obtain ⟨c, d, pool₁, pool₂, hc, hd, hdual⟩ := Reached.complement_exchanges_junctions hreached
    (i := i) (j := j) (by simp) (by simp)
  obtain ⟨hform, -, -, -⟩ := hdual .refl .or
  obtain ⟨-, -, -, hcombine⟩ := hdual .refl .and
  -- the disjunctive form is handed out, so its dual is
  have hanswer : context.answer (.normalForm .or i.filter) =
      .ok [.junction "order" .or (.junction "order" .and (total .eq) (total .gt))
        (.junction "order" .and (total .eq) anyLine)] := by
    rw [hi]
    decide +kernel
  obtain ⟨hreached₁, -⟩ := hreached.of_run (by simp [Query.arguments]) hc
  obtain ⟨hreached₂, -⟩ := hreached₁.of_run (by simp [Query.arguments]) hd
  obtain ⟨g, pool₃, hg, hgf, -⟩ :=
    hreached₂.serve_one (q := .normalForm .or i) (by simp [Query.arguments]) hanswer
  obtain ⟨g', pool₄, pool₅, hg', hback⟩ := hform.of_run_one hg
  refine ⟨pool, i, j, c, d, pool₁, pool₂, g, pool₃, g', pool₄, pool₅, hreached, hi, hj, hc, hd, hg,
    ?_, hg', hback, hcombine⟩
  rw [hgf]
  decide +kernel

end Sample

end Pool

end RowFilter
