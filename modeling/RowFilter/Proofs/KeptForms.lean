import RowFilter.Proofs.Complements
import RowFilter.Proofs.Operands

/-!
# Changes that the normal forms run in step with

What the rewrites into normal forms look at is little: where the junctions are and of which kind,
over which entity and how deep a filter is, and which operands of a junction give way. A change of
filters that keeps all this, perhaps with the two junctions exchanged, may be made before a rewrite
or after it. The clauses of the changed filter are the changed clauses, in the same order, and they
are refused where the clauses are, with the same error.
-/

namespace RowFilter

/-- Computing for every item something that corresponds to what is computed for its image. -/
theorem mapM_map_eq_map {ε α α' β β' : Type} {φ : α → α'} {ψ : β → β'}
    {x : α → Except ε β} {y : α' → Except ε β'} (h : ∀ a, y (φ a) = (x a).map ψ)
    (items : List α) : (items.map φ).mapM y = (items.mapM x).map (List.map ψ) := by
  induction items with
  | nil => rfl
  | cons a items ih =>
    rw [List.map_cons, List.mapM_cons, List.mapM_cons, h a, ih]
    cases x a with
    | error e => rfl
    | ok b => cases items.mapM x <;> rfl

/-- What is no junction is its own only clause. -/
theorem Filter.IsAtom.clauses_eq {f : Filter} (hf : f.IsAtom) {outer : Junction} {limit : Nat} :
    f.clauses outer limit = .ok [[f]] := by
  cases f with
  | junction e kind l r => exact absurd rfl (hf e kind l r)
  | opened | closed | compare | existence => rfl

/-- With the junctions exchanged by `κ`, the change `φ` keeps what the rewrites look at. -/
structure KeepsForm (κ : Junction → Junction) (φ : Filter → Filter) : Prop where
  inj : ∀ {kind outer : Junction}, κ kind = κ outer ↔ kind = outer
  dual : ∀ kind : Junction, (κ kind).dual = κ kind.dual
  junction : ∀ e kind l r, φ (.junction e kind l r) = .junction e (κ kind) (φ l) (φ r)
  isAtom : ∀ {f : Filter}, f.IsAtom → (φ f).IsAtom
  entity : ∀ f, (φ f).entity = f.entity
  depth : ∀ f, (φ f).depth = f.depth
  absorbs : ∀ (ctx : Context) kind f,
    ctx.builder.absorbs (κ kind) (φ f) = ctx.builder.absorbs kind f
  ignores : ∀ (ctx : Context) kind f,
    ctx.builder.ignores (κ kind) (φ f) = ctx.builder.ignores kind f
  unit : ∀ (ctx : Context) e kind, ctx.builder.unit e (κ kind) = (ctx.builder.unit e kind).map φ

variable {ctx : Context} {κ : Junction → Junction} {φ : Filter → Filter} {e : String}

namespace KeepsForm

/-! ## Junctions -/

theorem join (h : KeepsForm κ φ) (kind : Junction) (left right : Filter) :
    ctx.builder.join (κ kind) (φ left) (φ right) = (ctx.builder.join kind left right).map φ := by
  have hentity : ctx.builder.entityOf (φ left) = ctx.builder.entityOf left := h.entity left
  have hdepth : (Node.junction left.entity (κ kind) (φ left) (φ right)).depth
      ctx.builder.depthOf =
        (Node.junction left.entity kind left right).depth ctx.builder.depthOf := by
    show max (φ left).depth (φ right).depth + 1 = max left.depth right.depth + 1
    rw [h.depth, h.depth]
  unfold Builder.join
  rw [h.absorbs, h.absorbs, h.ignores, h.ignores, hentity]
  split_ifs
  · rfl
  · rfl
  · show ctx.builder.withinDepth (Node.junction left.entity _ _ _) =
      (ctx.builder.withinDepth (Node.junction left.entity _ _ _)).map φ
    unfold Builder.withinDepth
    rw [hdepth]
    split
    · rfl
    · exact congrArg Except.ok (h.junction _ _ _ _).symm

/-- Joining what must be over one entity: that it is not is the same error either way. -/
theorem combine (h : KeepsForm κ φ) (kind : Junction) (left right : Filter) :
    ctx.builder.combine (κ kind) (φ left) (φ right) =
      (ctx.builder.combine kind left right).map φ := by
  have hentity (f : Filter) : ctx.builder.entityOf (φ f) = ctx.builder.entityOf f := h.entity f
  unfold Builder.combine
  rw [hentity, hentity, h.join]
  split_ifs <;> rfl

theorem joinFrom (h : KeepsForm κ φ) (kind : Junction) (f : Filter) (rest : List Filter) :
    (rest.map φ).foldlM (ctx.builder.join (κ kind)) (φ f) =
      (rest.foldlM (ctx.builder.join kind) f).map φ := by
  induction rest generalizing f with
  | nil => rfl
  | cons g rest ih =>
    rw [List.map_cons, List.foldlM_cons, List.foldlM_cons, h.join]
    cases ctx.builder.join kind f g with
    | error e => rfl
    | ok joined => exact ih joined

theorem joinAll (h : KeepsForm κ φ) (kind : Junction) (fs : List Filter) :
    ctx.joinAll e (κ kind) (fs.map φ) = (ctx.joinAll e kind fs).map φ := by
  cases fs with
  | nil => exact h.unit ctx e kind
  | cons f rest => exact h.joinFrom kind f rest

/-! ## Clauses -/

/-- The clauses of the changed filter are the changed clauses, one by one and in order; and the
limit is passed, if at all, at the same junction. -/
theorem clauses (h : KeepsForm κ φ) (outer : Junction) (limit : Nat) (f : Filter) :
    (φ f).clauses (κ outer) limit = (f.clauses outer limit).map (List.map (List.map φ)) := by
  induction f with
  | junction e kind left right ihl ihr =>
    rw [h.junction]
    simp only [Filter.clauses, h.inj, ihl, ihr]
    cases left.clauses outer limit with
    | error e => rfl
    | ok ls =>
      cases right.clauses outer limit with
      | error e => rfl
      | ok rs =>
        show (if kind = outer then _ else _) = Except.map _ (if kind = outer then _ else _)
        -- as many clauses come together on either side
        rw [List.length_map, List.length_map]
        split_ifs
        · cases Filter.checkCount limit (ls.length + rs.length) with
          | error e => rfl
          | ok u => exact congrArg Except.ok List.map_append.symm
        · cases Filter.checkCount limit (min (ls.length * rs.length) clauseCountBound) with
          | error e => rfl
          | ok u => exact congrArg Except.ok (map_distribute φ ls rs).symm
  | opened | closed | compare | existence => exact (h.isAtom (Filter.isAtom_iff.2 rfl)).clauses_eq

theorem split (h : KeepsForm κ φ) (outer : Junction) (f : Filter) :
    ctx.split (κ outer) (φ f) = (ctx.split outer f).map (List.map φ) := by
  unfold Context.split
  rw [h.clauses, h.entity, h.dual]
  cases f.clauses outer ctx.config.maxClauses with
  | error e => rfl
  | ok cs => exact mapM_map_eq_map (h.joinAll outer.dual) cs

theorem normalForm (h : KeepsForm κ φ) (outer : Junction) (f : Filter) :
    ctx.normalForm (κ outer) (φ f) = (ctx.normalForm outer f).map φ := by
  unfold Context.normalForm
  rw [h.split, h.entity]
  cases ctx.split outer f with
  | error e => rfl
  | ok cs => exact h.joinAll outer cs

end KeepsForm

/-! ## In a session -/

namespace Pool

variable {pool : Pool} {held : List Instance}

/-- After the two requests, one after the other: the second has failed with the error of the
first, or what it was answered with is, one by one and in order, what the session hands out on
request for what the first was answered with. -/
def AnsweredInStep (ctx : Context) (request : Instance → Request) (pool : Pool) (q q' : Request) :
    Prop :=
  match (serve ctx q).run pool with
  | (.error e, pool₁) => ((serve ctx q').run pool₁).1 = .error e
  | (.ok gs, pool₁) =>
    ∃ gs' pool₂, (serve ctx q').run pool₁ = (.ok gs', pool₂) ∧
      List.Forall₂ (fun g g' => ∃ pool₃, (serve ctx (request g)).run pool₂ = (.ok [g'], pool₃))
        gs gs'

variable {request : Instance → Request}

/-- In a session, instances of filters and of the changed filters: each of these is what is handed
out on request for the one in its place. -/
theorem Reached.images_held (h : Reached ctx pool held) (hrequest : Requests ctx request φ)
    {gs gs' : List Instance} (hgs : ∀ g ∈ gs, g ∈ held) (hgs' : ∀ g ∈ gs', g ∈ held)
    (hfilters : gs'.map Instance.filter = (gs.map Instance.filter).map φ) :
    List.Forall₂ (fun g g' => ∃ pool', (serve ctx (request g)).run pool = (.ok [g'], pool'))
      gs gs' := by
  induction gs generalizing gs' with
  | nil =>
    obtain rfl : gs' = [] := List.map_eq_nil_iff.1 hfilters
    exact .nil
  | cons g gs ih =>
    obtain ⟨g', gs', rfl, hhead, htail⟩ := List.map_eq_cons_iff.1 hfilters
    refine .cons (h.request_held hrequest (hgs g (by simp)) (hgs' g' (by simp)) hhead) ?_
    exact ih (fun i hi => hgs i (by simp [hi])) (fun i hi => hgs' i (by simp [hi])) htail

/-- Requests that the context answers in step are answered in step in a session. -/
theorem Reached.answeredInStep (h : Reached ctx pool held) (hrequest : Requests ctx request φ)
    {q q' : Request} (hq : ∀ i ∈ q.arguments, i ∈ held) (hq' : ∀ i ∈ q'.arguments, i ∈ held)
    (hstep : ctx.answer (q'.map Instance.filter) =
      (ctx.answer (q.map Instance.filter)).map (List.map φ)) :
    AnsweredInStep ctx request pool q q' := by
  have hserve := h.serve_eq hq
  have hreached := Reached.served q hq h
  unfold AnsweredInStep
  generalize (serve ctx q).run pool = r at hserve hreached ⊢
  obtain ⟨r, pool₁⟩ := r
  have hstill : ∀ i ∈ q'.arguments, i ∈ handedOut r ++ held :=
    fun i hi => List.mem_append_right _ (hq' i hi)
  rw [← hserve] at hstep
  cases r with
  | error e => exact hreached.serve_error hstill hstep
  | ok gs =>
    obtain ⟨gs', pool₂, hrun, hfilters, hreached'⟩ := hreached.serve_ok hstill hstep
    refine ⟨gs', pool₂, hrun, hreached'.images_held hrequest (fun g hg => ?_) (fun g hg => ?_)
      hfilters⟩
    · simp [handedOut, hg]
    · simp [hg]

end Pool

end RowFilter
