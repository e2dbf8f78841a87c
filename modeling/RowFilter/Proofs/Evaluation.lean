import RowFilter.Proofs.Sessions

/-!
# Filters as functions of their atoms

Read as a propositional formula, a filter has comparisons and existence tests for atoms: its truth
is a function of theirs. Junctions that are built within the limits have the truth of their
operands, sentinels included, and distributing one junction over the other changes no truth value.
So a normal form, whatever its clauses, evaluates as the filter does, and so do its clauses taken
together.
-/

namespace RowFilter

/-! ## Truth of junctions -/

namespace Junction

variable {α : Type}

/-- The truth of a junction of no operands. -/
def neutral : Junction → Bool
  | .and => true
  | .or => false

/-- The truth of a junction of two operands. -/
def connect : Junction → Bool → Bool → Bool
  | .and, a, b => a && b
  | .or, a, b => a || b

/-- The truth of a junction of items: of all of them, or of one of them at least. -/
def holdsOf (p : α → Bool) : Junction → List α → Bool
  | .and, items => items.all p
  | .or, items => items.any p

@[simp] theorem holdsOf_nil (p : α → Bool) (kind : Junction) :
    kind.holdsOf p [] = kind.neutral := by
  cases kind <;> rfl

/-- A junction of more operands joins the first to the others. -/
@[simp] theorem holdsOf_cons (p : α → Bool) (kind : Junction) (x : α) (xs : List α) :
    kind.holdsOf p (x :: xs) = kind.connect (p x) (kind.holdsOf p xs) := by
  cases kind <;> rfl

/-- The neutral value adds nothing on the left. -/
@[simp] theorem connect_neutral_left (kind : Junction) (b : Bool) :
    kind.connect kind.neutral b = b := by
  cases kind <;> cases b <;> rfl

@[simp] theorem connect_neutral_right (kind : Junction) (a : Bool) :
    kind.connect a kind.neutral = a := by
  cases kind <;> cases a <;> rfl

/-- The other value decides the junction from the left. -/
@[simp] theorem connect_absorbing_left (kind : Junction) (b : Bool) :
    kind.connect (!kind.neutral) b = !kind.neutral := by
  cases kind <;> cases b <;> rfl

@[simp] theorem connect_absorbing_right (kind : Junction) (a : Bool) :
    kind.connect a (!kind.neutral) = !kind.neutral := by
  cases kind <;> cases a <;> rfl

/-- Grouping makes no difference to what holds. -/
theorem connect_assoc (kind : Junction) (a b c : Bool) :
    kind.connect (kind.connect a b) c = kind.connect a (kind.connect b c) := by
  cases kind
  · exact Bool.and_assoc a b c
  · exact Bool.or_assoc a b c

/-- There are but two junctions. -/
theorem eq_dual_of_ne {kind outer : Junction} (h : kind ≠ outer) : kind = outer.dual := by
  cases kind <;> cases outer <;> simp [dual] at h ⊢

/-- One junction distributes over the other. -/
theorem connect_dual_connect (kind : Junction) (a b c : Bool) :
    kind.dual.connect a (kind.connect b c) =
      kind.connect (kind.dual.connect a b) (kind.dual.connect a c) := by
  cases kind
  · exact Bool.or_and_distrib_left a b c
  · exact Bool.and_or_distrib_left a b c

/-- Each junction distributes over the other. -/
theorem connect_connect_dual (kind : Junction) (a b c : Bool) :
    kind.dual.connect (kind.connect a b) c =
      kind.connect (kind.dual.connect a c) (kind.dual.connect b c) := by
  cases kind
  · exact Bool.or_and_distrib_right a b c
  · exact Bool.and_or_distrib_right a b c

/-- What is neutral for one junction decides the other. -/
theorem connect_dual_neutral_left (kind : Junction) (b : Bool) :
    kind.dual.connect kind.neutral b = kind.neutral := by
  cases kind <;> cases b <;> rfl

theorem connect_dual_neutral_right (kind : Junction) (a : Bool) :
    kind.dual.connect a kind.neutral = kind.neutral := by
  cases kind <;> cases a <;> rfl

theorem holdsOf_singleton (p : α → Bool) (kind : Junction) (x : α) :
    kind.holdsOf p [x] = p x := by
  rw [holdsOf_cons, holdsOf_nil, connect_neutral_right]

/-- A junction of two lists joins what each comes to. -/
theorem holdsOf_append (p : α → Bool) (kind : Junction) (xs ys : List α) :
    kind.holdsOf p (xs ++ ys) = kind.connect (kind.holdsOf p xs) (kind.holdsOf p ys) := by
  induction xs with
  | nil => simp
  | cons x xs ih => rw [List.cons_append, holdsOf_cons, ih, holdsOf_cons, connect_assoc]

/-- The order of the items makes no difference. -/
theorem holdsOf_perm {p : α → Bool} (kind : Junction) {xs ys : List α} (h : xs.Perm ys) :
    kind.holdsOf p xs = kind.holdsOf p ys := by
  cases kind
  · exact h.all_eq
  · exact h.any_eq

/-- Items may be exchanged for others with the same truth. -/
theorem holdsOf_map {β : Type} {p : α → Bool} {q : β → Bool} {f : β → α} (kind : Junction)
    {xs : List β} (h : ∀ x ∈ xs, p (f x) = q x) :
    kind.holdsOf p (xs.map f) = kind.holdsOf q xs := by
  induction xs with
  | nil => rw [List.map_nil, holdsOf_nil, holdsOf_nil]
  | cons x xs ih =>
    have hx : p (f x) = q x := h x (by simp)
    have hxs := ih fun y hy => h y (by simp [hy])
    rw [List.map_cons, holdsOf_cons, hx, hxs, holdsOf_cons]

/-- Clauses that all begin alike: what they begin with can be put in front of all of them. -/
theorem holdsOf_map_append (p : α → Bool) (outer : Junction) (c : List α)
    (rs : List (List α)) :
    outer.holdsOf (outer.dual.holdsOf p) (rs.map fun r => c ++ r) =
      outer.dual.connect (outer.dual.holdsOf p c) (outer.holdsOf (outer.dual.holdsOf p) rs) := by
  induction rs with
  | nil => simp [connect_dual_neutral_right]
  | cons r rs ih =>
    rw [List.map_cons, holdsOf_cons, ih, holdsOf_append, holdsOf_cons, connect_dual_connect]

/-- The product of two lists of clauses is true where both are, or where one is. -/
theorem holdsOf_distribute (p : α → Bool) (outer : Junction) (ls rs : List (List α)) :
    outer.holdsOf (outer.dual.holdsOf p) (distribute ls rs) =
      outer.dual.connect (outer.holdsOf (outer.dual.holdsOf p) ls)
        (outer.holdsOf (outer.dual.holdsOf p) rs) := by
  induction ls with
  | nil => simp [distribute, connect_dual_neutral_left]
  | cons l ls ih =>
    have hsplit : distribute (l :: ls) rs = (rs.map fun r => l ++ r) ++ distribute ls rs := rfl
    rw [hsplit, holdsOf_append, holdsOf_map_append, ih, holdsOf_cons, connect_connect_dual]

end Junction

/-! ## Truth of filters -/

/-- The truth of the filter, given that of every comparison and every existence test. -/
def Filter.eval (v : Filter → Bool) : Filter → Bool
  | opened _ => true
  | closed _ => false
  | junction _ kind left right => kind.connect (left.eval v) (right.eval v)
  | f => v f

/-- The truth of the instance, given that of every comparison and every existence test by its
number. -/
def Instance.eval (v : Nat → Bool) : Instance → Bool
  | ⟨_, _, .opened _⟩ => true
  | ⟨_, _, .closed _⟩ => false
  | ⟨_, _, .junction _ kind left right⟩ => kind.connect (left.eval v) (right.eval v)
  | i => v i.id

variable {ctx : Context} {v : Filter → Bool} {e : String} {kind outer : Junction}

/-! ## Junctions within the limits -/

theorem Filter.eval_of_isOpen {f : Filter} (h : f.isOpen = true) : f.eval v = true := by
  cases f with
  | opened => rfl
  | _ => exact nomatch h

theorem Filter.eval_of_isClosed {f : Filter} (h : f.isClosed = true) : f.eval v = false := by
  cases f with
  | closed => rfl
  | _ => exact nomatch h

/-- A filter that decides a junction has the value that does. -/
theorem eval_of_absorbs {f : Filter} (h : ctx.builder.absorbs kind f = true) :
    f.eval v = !kind.neutral := by
  cases kind with
  | and => exact Filter.eval_of_isClosed h
  | or => exact Filter.eval_of_isOpen h

/-- A filter that adds nothing has the neutral value. -/
theorem eval_of_ignores {f : Filter} (h : ctx.builder.ignores kind f = true) :
    f.eval v = kind.neutral := by
  cases kind with
  | and => exact Filter.eval_of_isOpen h
  | or => exact Filter.eval_of_isClosed h

/-- A junction that gives way for an operand has the truth of that operand. -/
theorem eval_join {left right f : Filter} (h : ctx.builder.join kind left right = .ok f) :
    f.eval v = kind.connect (left.eval v) (right.eval v) := by
  unfold Builder.join at h
  split at h
  · next hleft =>
    have hf : left = f := Except.ok.inj h
    rw [← hf]
    rcases Bool.or_eq_true_iff.1 hleft with hl | hr
    · rw [eval_of_absorbs hl, Junction.connect_absorbing_left]
    · rw [eval_of_ignores hr, Junction.connect_neutral_right]
  · split at h
    · next hright =>
      have hf : right = f := Except.ok.inj h
      rw [← hf]
      rcases Bool.or_eq_true_iff.1 hright with hr | hl
      · rw [eval_of_absorbs hr, Junction.connect_absorbing_right]
      · rw [eval_of_ignores hl, Junction.connect_neutral_left]
    · have hf := (withinDepth_eq_ok.1 h).1
      rw [← hf]
      rfl

/-- Operands that are joined one by one hold as their junction, by induction on the operands. -/
theorem eval_joinFrom {left f : Filter} {rest : List Filter}
    (h : rest.foldlM (ctx.builder.join kind) left = .ok f) :
    f.eval v = kind.connect (left.eval v) (kind.holdsOf (Filter.eval v) rest) := by
  induction rest generalizing left with
  | nil =>
    have hf : left = f := Except.ok.inj h
    rw [hf, Junction.holdsOf_nil, Junction.connect_neutral_right]
  | cons next rest ih =>
    rw [List.foldlM_cons] at h
    obtain ⟨joined, hjoined, h⟩ := bind_eq_ok.1 h
    rw [ih h, eval_join hjoined, Junction.connect_assoc, Junction.holdsOf_cons]

/-- What filters join to is true where the junction of them is, even if there are none. -/
theorem eval_joinAll {fs : List Filter} {f : Filter} (h : ctx.joinAll e kind fs = .ok f) :
    f.eval v = kind.holdsOf (Filter.eval v) fs := by
  cases fs with
  | nil => cases kind <;> obtain rfl := Except.ok.inj h <;> rfl
  | cons first rest =>
    rw [eval_joinFrom h, Junction.holdsOf_cons]

/-! ## Normal forms -/

/-- The clauses taken together are true where the filter is. -/
theorem eval_clauses {limit : Nat} {f : Filter} {cs : List (List Filter)}
    (h : f.clauses outer limit = .ok cs) :
    outer.holdsOf (outer.dual.holdsOf (Filter.eval v)) cs = f.eval v := by
  induction f generalizing cs with
  | opened | closed | compare | existence =>
    have hcs := Except.ok.inj h
    rw [← hcs, Junction.holdsOf_singleton, Junction.holdsOf_singleton]
  | junction e' kind left right ihl ihr =>
    obtain ⟨ls, hls, h⟩ := bind_eq_ok.1 h
    obtain ⟨rs, hrs, h⟩ := bind_eq_ok.1 h
    have hleft := ihl hls
    have hright := ihr hrs
    split at h
    · next hkind =>
      -- an outer junction: the clauses stand one after the other
      obtain ⟨_, -, h⟩ := bind_eq_ok.1 h
      have hcs := pure_eq_ok.1 h
      rw [← hcs, Junction.holdsOf_append, hleft, hright, ← hkind]
      rfl
    · next hkind =>
      -- an inner junction: the clauses are distributed
      have hdual : kind = outer.dual := Junction.eq_dual_of_ne hkind
      obtain ⟨_, -, h⟩ := bind_eq_ok.1 h
      have hcs := pure_eq_ok.1 h
      rw [← hcs, Junction.holdsOf_distribute, hleft, hright, hdual]
      rfl

/-- Clauses hold as the junctions of their atoms. -/
theorem eval_joinClauses {cs : List (List Filter)} {fs : List Filter}
    (h : cs.mapM (ctx.joinAll e kind) = .ok fs) :
    outer.holdsOf (Filter.eval v) fs = outer.holdsOf (kind.holdsOf (Filter.eval v)) cs := by
  induction cs generalizing fs with
  | nil =>
    have hfs : [] = fs := Except.ok.inj h
    rw [← hfs, Junction.holdsOf_nil, Junction.holdsOf_nil]
  | cons c cs ih =>
    rw [List.mapM_cons] at h
    obtain ⟨f, hf, h⟩ := bind_eq_ok.1 h
    obtain ⟨rest, hrest, h⟩ := bind_eq_ok.1 h
    have hfs := pure_eq_ok.1 h
    rw [← hfs, Junction.holdsOf_cons, Junction.holdsOf_cons, eval_joinAll hf, ih hrest]

/-- The clauses together hold where the filter does. -/
theorem eval_split {f : Filter} {fs : List Filter} (h : ctx.split outer f = .ok fs) :
    outer.holdsOf (Filter.eval v) fs = f.eval v := by
  obtain ⟨cs, hcs, h⟩ := bind_eq_ok.1 h
  rw [eval_joinClauses h, eval_clauses hcs]

/-- A normal form holds where the filter does. -/
theorem eval_normalForm {f g : Filter} (h : ctx.normalForm outer f = .ok g) :
    g.eval v = f.eval v := by
  obtain ⟨fs, hfs, h⟩ := bind_eq_ok.1 h
  rw [eval_joinAll h, eval_split hfs]

/-! ## Truth of instances -/

namespace Pool

variable {pool : Pool} {held : List Instance}

/-- In one pool numbers stand for filters, so an assignment to numbers is one to filters. -/
theorem Canonical.exists_eval (hc : Canonical pool) (v : Nat → Bool) :
    ∃ w : Filter → Bool, ∀ i, pool.Holds i → i.filter.eval w = i.eval v := by
  classical
  let w : Filter → Bool := fun f => decide (∃ i, pool.Holds i ∧ i.filter = f ∧ v i.id = true)
  have hatom : ∀ i, pool.Holds i → w i.filter = v i.id := by
    intro i hi
    have hiff : (∃ j, pool.Holds j ∧ j.filter = i.filter ∧ v j.id = true) ↔ v i.id = true := by
      constructor
      · rintro ⟨j, hj, hfilter, htrue⟩
        rwa [← hc.eq_of_filter_eq hj hi hfilter]
      · intro htrue
        exact ⟨i, hi, rfl, htrue⟩
    simp only [w, hiff, Bool.decide_eq_true]
  refine ⟨w, fun i hi => ?_⟩
  induction i with
  | opened | closed => rfl
  | compare id depth l => exact hatom _ hi
  | existence id depth e c negated sub => exact hatom _ hi
  | junction id depth e kind left right ihl ihr =>
    obtain ⟨hl, hr⟩ := hc.holds_operands hi
    have hleft := ihl hl
    have hright := ihr hr
    simp only [Instance.filter, Filter.eval, Instance.eval, hleft, hright]

/-- An assignment to the numbers of instances is one to filters, for all that a session holds. -/
theorem Reached.exists_eval (h : Reached ctx pool held) (v : Nat → Bool) :
    ∃ w : Filter → Bool, ∀ i ∈ held, i.filter.eval w = i.eval v := by
  obtain ⟨w, hw⟩ := h.sound.1.exists_eval v
  exact ⟨w, fun i hi => hw i (h.sound.2 i hi)⟩

/-- The clauses that a session hands out are true together where the instance is. -/
theorem Reached.holdsOf_split (h : Reached ctx pool held) {i : Instance} (hi : i ∈ held)
    (v : Nat → Bool) {cs : List Instance} {pool' : Pool}
    (hrun : (serve ctx (.split outer i)).run pool = (.ok cs, pool')) :
    outer.holdsOf (Instance.eval v) cs = i.eval v := by
  have hargs : ∀ j ∈ (Query.split outer i).arguments, j ∈ held := by
    simpa [Query.arguments] using hi
  obtain ⟨hreached, hanswer⟩ := h.of_run hargs hrun
  obtain ⟨w, hw⟩ := hreached.exists_eval v
  have hsplit : outer.holdsOf (Filter.eval w) (cs.map Instance.filter) = i.filter.eval w :=
    eval_split hanswer
  have hclauses : outer.holdsOf (Filter.eval w) (cs.map Instance.filter) =
      outer.holdsOf (Instance.eval v) cs :=
    outer.holdsOf_map fun c hc => hw c (List.mem_append_left _ hc)
  rw [← hclauses, hsplit]
  exact hw i (List.mem_append_right _ hi)

/-- Whatever is true of comparisons and existence tests, a normal form that a session hands out
has the truth of the instance; the instance is true exactly if a clause of the disjunctive form
is, and exactly if every clause of the conjunctive form is. -/
theorem Reached.normal_forms_evaluate (h : Reached ctx pool held) {i : Instance} (hi : i ∈ held)
    (v : Nat → Bool) :
    (∀ outer gs pool', (serve ctx (.normalForm outer i)).run pool = (.ok gs, pool') →
        ∃ g, gs = [g] ∧ g.eval v = i.eval v) ∧
      (∀ cs pool', (serve ctx (.split .or i)).run pool = (.ok cs, pool') →
        (i.eval v = true ↔ ∃ c ∈ cs, c.eval v = true)) ∧
      ∀ cs pool', (serve ctx (.split .and i)).run pool = (.ok cs, pool') →
        (i.eval v = true ↔ ∀ c ∈ cs, c.eval v = true) := by
  refine ⟨?_, ?_, ?_⟩
  · intro outer gs pool' hrun
    have hargs : ∀ j ∈ (Query.normalForm outer i).arguments, j ∈ held := by
      simpa [Query.arguments] using hi
    obtain ⟨g, rfl, hform, hreached⟩ := h.of_run_one hargs rfl hrun
    -- one assignment to filters serves for both instances, since both are in the later pool
    obtain ⟨w, hw⟩ := hreached.exists_eval v
    have hnew : g.filter.eval w = g.eval v := hw g (by simp)
    have hold : i.filter.eval w = i.eval v := hw i (by simp [hi])
    have hsame : g.filter.eval w = i.filter.eval w := eval_normalForm hform
    exact ⟨g, rfl, by rw [← hnew, hsame, hold]⟩
  · intro cs pool' hrun
    have hany : cs.any (Instance.eval v) = i.eval v := h.holdsOf_split hi v hrun
    rw [← hany, List.any_eq_true]
  · intro cs pool' hrun
    have hall : cs.all (Instance.eval v) = i.eval v := h.holdsOf_split hi v hrun
    rw [← hall, List.all_eq_true]

/-! ### A choice -/

namespace Sample

/-- The orders of some total that have a line or a total over another one. -/
def choice : Filter :=
  .junction "order" .and (total .eq) (.junction "order" .or (total .gt) anyLine)

/-- The two ways to meet the choice. -/
def alternatives : List Filter :=
  [.junction "order" .and (total .eq) (total .gt), .junction "order" .and (total .eq) anyLine]

theorem normal_forms_evaluate_choice :
    ∃ pool i g pool₁ cs pool₂, Reached context pool [i] ∧ i.filter = choice ∧
      (serve context (.normalForm .or i)).run pool = (.ok [g], pool₁) ∧ g.filter ≠ choice ∧
      (serve context (.split .or i)).run pool = (.ok cs, pool₂) ∧
      cs.map Instance.filter = alternatives ∧
      ∀ v : Nat → Bool, g.eval v = i.eval v ∧ (i.eval v = true ↔ ∃ c ∈ cs, c.eval v = true) := by
  obtain ⟨pool, i, hreached, hfilter⟩ := exists_reached (f := choice) (by decide +kernel)
  have hmem : i ∈ [i] := List.mem_singleton_self i
  have hform : context.answer (.normalForm .or i.filter) =
      .ok [.junction "order" .or (.junction "order" .and (total .eq) (total .gt))
        (.junction "order" .and (total .eq) anyLine)] := by
    rw [hfilter]
    decide +kernel
  have hsplit : context.answer (.split .or i.filter) = .ok alternatives := by
    rw [hfilter]
    decide +kernel
  obtain ⟨g, pool₁, hrun₁, hg, -⟩ :=
    hreached.serve_one (q := .normalForm .or i) (by simp [Query.arguments]) hform
  obtain ⟨cs, pool₂, hrun₂, hcs, -⟩ :=
    hreached.serve_ok (q := .split .or i) (by simp [Query.arguments]) hsplit
  refine ⟨pool, i, g, pool₁, cs, pool₂, hreached, hfilter, hrun₁, ?_, hrun₂, hcs, fun v => ?_⟩
  · rw [hg]
    decide +kernel
  · obtain ⟨hnormal, hany, -⟩ := Reached.normal_forms_evaluate hreached hmem v
    obtain ⟨g', hg', heval⟩ := hnormal _ _ _ hrun₁
    rw [List.singleton_inj.1 hg']
    exact ⟨heval, hany _ _ hrun₂⟩

end Sample

end Pool

end RowFilter
