import RowFilter.Building

/-!
# Steps of the builder

What a step gives: a junction of proper filters is that junction unless it is too deep, and an
existence test stands over no closed filter and is that test unless it is too deep. So much is
known of a tree when the step that built it has succeeded.
-/

namespace RowFilter

/-! ## Computations that can fail -/

theorem bind_eq_ok {ε α β : Type} {x : Except ε α} {k : α → Except ε β} {b : β} :
    x >>= k = .ok b ↔ ∃ a, x = .ok a ∧ k a = .ok b := by
  cases x with
  | ok a => exact ⟨fun h => ⟨a, rfl, h⟩, fun ⟨_, ha, h⟩ => Except.ok.inj ha ▸ h⟩
  | error e => exact ⟨fun h => (nomatch h), fun ⟨_, ha, _⟩ => (nomatch ha)⟩

theorem bind_eq_error {ε α β : Type} {x : Except ε α} {k : α → Except ε β} {e : ε} :
    x >>= k = .error e ↔ x = .error e ∨ ∃ a, x = .ok a ∧ k a = .error e := by
  cases x with
  | ok a =>
    constructor
    · exact fun h => .inr ⟨a, rfl, h⟩
    · rintro (h | ⟨_, ha, h⟩)
      · exact nomatch h
      · exact Except.ok.inj ha ▸ h
  | error e' =>
    constructor
    · exact fun h => .inl (congrArg Except.error (Except.error.inj h))
    · rintro (h | ⟨_, ha, _⟩)
      · exact congrArg Except.error (Except.error.inj h)
      · exact nomatch ha

theorem pure_eq_ok {ε α : Type} {a b : α} :
    (pure a : Except ε α) = .ok b ↔ a = b :=
  ⟨Except.ok.inj, congrArg Except.ok⟩

/-- Computing for every item gives as many results, each in the place of its item. -/
theorem getElem?_of_mapM {ε α β : Type} {f : α → Except ε β} {items : List α} {results : List β}
    (h : items.mapM f = .ok results) : results.length = items.length ∧
      ∀ {k : Nat} {a : α}, items[k]? = some a → ∃ b, results[k]? = some b ∧ f a = .ok b := by
  induction items generalizing results with
  | nil =>
    rw [List.mapM_nil] at h
    obtain rfl := pure_eq_ok.1 h
    exact ⟨rfl, fun hk => nomatch hk⟩
  | cons a items ih =>
    rw [List.mapM_cons] at h
    obtain ⟨b, hb, h⟩ := bind_eq_ok.1 h
    obtain ⟨rest, hrest, h⟩ := bind_eq_ok.1 h
    obtain rfl := pure_eq_ok.1 h
    obtain ⟨hlength, hplace⟩ := ih hrest
    refine ⟨congrArg (· + 1) hlength, fun {k} => ?_⟩
    cases k with
    | zero =>
      intro a' ha'
      obtain rfl := Option.some.inj ha'
      exact ⟨b, rfl, hb⟩
    | succ k => exact hplace

/-- The error of a computation for every item is that of the first item that has one. -/
theorem mapM_eq_error {ε α β : Type} {f : α → Except ε β} {items : List α} {e : ε} :
    items.mapM f = .error e ↔ ∃ (k : Nat) (a : α), items[k]? = some a ∧ f a = .error e ∧
      ∀ (j : Nat) (b : α), j < k → items[j]? = some b → ∃ r, f b = .ok r := by
  induction items with
  | nil =>
    constructor
    · exact fun h => nomatch h
    · rintro ⟨k, a, ha, -⟩
      exact nomatch ha
  | cons a items ih =>
    rw [List.mapM_cons, bind_eq_error]
    constructor
    · rintro (h | ⟨r, hr, h⟩)
      · exact ⟨0, a, rfl, h, fun j b hj => absurd hj (Nat.not_lt_zero j)⟩
      · rcases bind_eq_error.1 h with h | ⟨rest, -, h⟩
        · obtain ⟨k, a', ha', herror, hbefore⟩ := ih.1 h
          refine ⟨k + 1, a', ha', herror, fun j b hj hb => ?_⟩
          cases j with
          | zero => exact ⟨r, Option.some.inj hb ▸ hr⟩
          | succ j => exact hbefore j b (Nat.lt_of_succ_lt_succ hj) hb
        · exact nomatch h
    · rintro ⟨k, a', ha', herror, hbefore⟩
      cases k with
      | zero => exact .inl (Option.some.inj ha' ▸ herror)
      | succ k =>
        obtain ⟨r, hr⟩ := hbefore 0 a (Nat.succ_pos k) rfl
        refine .inr ⟨r, hr, bind_eq_error.2 (.inl (ih.2 ⟨k, a', ha', herror, ?_⟩))⟩
        exact fun j b hj hb => hbefore (j + 1) b (Nat.succ_lt_succ hj) hb

/-- Going through a list succeeds just if it does for each item. -/
theorem exists_mapM_eq_ok {ε α β : Type} {f : α → Except ε β} {items : List α} :
    (∃ results, items.mapM f = .ok results) ↔
      ∀ (k : Nat) (a : α), items[k]? = some a → ∃ r, f a = .ok r := by
  constructor
  · rintro ⟨results, h⟩ k a ha
    obtain ⟨b, -, hb⟩ := (getElem?_of_mapM h).2 ha
    exact ⟨b, hb⟩
  · intro h
    cases hresult : items.mapM f with
    | ok results => exact ⟨results, rfl⟩
    | error e =>
      obtain ⟨k, a, ha, herror, -⟩ := mapM_eq_error.1 hresult
      obtain ⟨r, hr⟩ := h k a ha
      rw [herror] at hr
      cases hr

@[simp] theorem ofExcept_eq {ε α : Type} (x : Except ε α) :
    (MonadExcept.ofExcept x : Except ε α) = x := by
  cases x <;> rfl

/-! ## Names -/

/-- An entity is found by its own name. -/
theorem Schema.entity_name {s : Schema} {name : String} {e : Entity}
    (h : s.entity name = .ok e) : e.name = name := by
  unfold Schema.entity at h
  split at h
  · next e' hfind =>
    obtain rfl := Except.ok.inj h
    exact Schema.find?_name hfind
  · exact nomatch h

theorem Schema.lookup_name {s : Schema} {name : String} {e : Entity}
    (h : s.lookup name = .ok e) : e.name = name := by
  unfold Schema.lookup at h
  split at h
  · next e' he =>
    obtain rfl := Except.ok.inj h
    exact Schema.entity_name he
  · exact nomatch h

/-! ## The steps of the builder -/

/-- The filter is neither open nor closed. -/
def Filter.Proper (f : Filter) : Prop :=
  f.isOpen = false ∧ f.isClosed = false

/-- What is neither open nor closed decides no junction. -/
theorem Filter.Proper.absorbs {ctx : Context} {kind : Junction} {f : Filter} (h : f.Proper) :
    ctx.builder.absorbs kind f = false := by
  cases kind
  · exact h.2
  · exact h.1

theorem Filter.Proper.ignores {ctx : Context} {kind : Junction} {f : Filter} (h : f.Proper) :
    ctx.builder.ignores kind f = false := by
  cases kind
  · exact h.1
  · exact h.2

namespace Context

variable {ctx : Context} {f g : Filter}

/-- The filter, unless it is too deep. -/
def withinDepth (ctx : Context) (f : Filter) : Except FilterError Filter :=
  if f.depth ≤ ctx.config.maxDepth then .ok f else .error (.tooDeep ctx.config.maxDepth)

theorem withinDepth_of_le (h : f.depth ≤ ctx.config.maxDepth) : ctx.withinDepth f = .ok f :=
  if_pos h

theorem withinDepth_of_lt (h : ctx.config.maxDepth < f.depth) :
    ctx.withinDepth f = .error (.tooDeep ctx.config.maxDepth) :=
  if_neg (Nat.not_le.2 h)

/-- What the limit lets through is unchanged. -/
theorem withinDepth_eq_ok :
    ctx.withinDepth f = .ok g ↔ f = g ∧ g.depth ≤ ctx.config.maxDepth := by
  unfold withinDepth
  split
  · next hle =>
    constructor
    · intro h
      obtain rfl := Except.ok.inj h
      exact ⟨rfl, hle⟩
    · rintro ⟨rfl, -⟩
      rfl
  · next hdeep =>
    constructor
    · intro h
      cases h
    · rintro ⟨rfl, hle⟩
      exact absurd hle hdeep

/-- A node is checked as the filter with this top. -/
theorem builder_withinDepth (n : Node Filter) :
    ctx.builder.withinDepth n = ctx.withinDepth n.filter := by
  have hdepth : n.depth ctx.builder.depthOf = n.filter.depth := (Node.depth_filter n).symm
  unfold Builder.withinDepth
  rw [hdepth]
  show (if ctx.config.maxDepth < n.filter.depth then throw _ else Except.ok n.filter) = _
  by_cases hdeep : ctx.config.maxDepth < n.filter.depth
  · rw [if_pos hdeep, withinDepth_of_lt hdeep]
    rfl
  · rw [if_neg hdeep, withinDepth_of_le (Nat.not_lt.1 hdeep)]

/-- Joining proper filters gives their junction, unless that is too deep. -/
theorem join_eq {kind : Junction} {left right : Filter} (hl : left.Proper) (hr : right.Proper) :
    ctx.builder.join kind left right =
      ctx.withinDepth (.junction left.entity kind left right) := by
  -- proper filters neither decide nor leave a junction, so it is built
  unfold Builder.join
  rw [hl.absorbs, hl.ignores, hr.absorbs, hr.ignores]
  exact builder_withinDepth _

/-- An existence test stands over any filter but the closed one, unless it is too deep. -/
theorem existence_eq {e : String} {c : Chain} {negated : Bool} {sub : Filter}
    (h : sub.isClosed = false) :
    ctx.existence e c negated sub = ctx.withinDepth (.existence e c negated sub) := by
  show ctx.builder.existence e c negated sub = _
  unfold Builder.existence
  rw [show ctx.builder.isClosed sub = false from h]
  exact builder_withinDepth _

end Context

variable {ctx : Context}

/-- A node that the limit lets through is made as it is. -/
theorem withinDepth_eq_ok {n : Node Filter} {f : Filter} :
    ctx.builder.withinDepth n = .ok f ↔ n.filter = f ∧ f.depth ≤ ctx.config.maxDepth := by
  rw [Context.builder_withinDepth]
  exact Context.withinDepth_eq_ok

/-- Two proper filters join to the junction of both, if that is not too deep. -/
theorem join_eq_ok {kind : Junction} {left right f : Filter} (hl : left.Proper)
    (hr : right.Proper) :
    ctx.builder.join kind left right = .ok f ↔
      .junction left.entity kind left right = f ∧ f.depth ≤ ctx.config.maxDepth := by
  rw [Context.join_eq hl hr]
  exact Context.withinDepth_eq_ok

/-- What two filters join to is one of the two, if not both are proper, or else their junction. -/
theorem join_cases {kind : Junction} {left right f : Filter}
    (h : ctx.builder.join kind left right = .ok f) :
    (f = left ∨ f = right) ∧ ¬(left.Proper ∧ right.Proper) ∨
      f = .junction left.entity kind left right := by
  by_cases hproper : left.Proper ∧ right.Proper
  · obtain ⟨hl, hr⟩ := hproper
    exact .inr ((join_eq_ok hl hr).1 h).1.symm
  · unfold Builder.join at h
    split at h
    · exact .inl ⟨.inl (pure_eq_ok.1 h).symm, hproper⟩
    · split at h
      · exact .inl ⟨.inr (pure_eq_ok.1 h).symm, hproper⟩
      · exact .inr (withinDepth_eq_ok.1 h).1.symm

/-- A junction gives way to one of its operands only if one of them is open or closed. -/
theorem combine_cases {kind : Junction} {left right f : Filter}
    (h : ctx.builder.combine kind left right = .ok f) :
    (f = left ∨ f = right) ∧ ¬(left.Proper ∧ right.Proper) ∨
      f = .junction left.entity kind left right := by
  unfold Builder.combine at h
  split at h
  · exact join_cases h
  · cases h

/-- What two filters over one entity join to is over it. -/
theorem entity_join {kind : Junction} {left right f : Filter}
    (hentity : right.entity = left.entity) (h : ctx.builder.join kind left right = .ok f) :
    f.entity = left.entity := by
  rcases join_cases h with ⟨rfl | rfl, -⟩ | rfl
  · rfl
  · exact hentity
  · rfl

/-- A test is built over what is not closed, if it is not too deep. -/
theorem existence_eq_ok {e : String} {c : Chain} {negated : Bool} {sub f : Filter} :
    ctx.builder.existence e c negated sub = .ok f ↔
      sub.isClosed = false ∧ .existence e c negated sub = f ∧
        f.depth ≤ ctx.config.maxDepth := by
  by_cases hclosed : sub.isClosed = true
  · unfold Builder.existence
    rw [show ctx.builder.isClosed sub = true from hclosed, hclosed]
    exact ⟨fun h => (nomatch h), fun h => (nomatch h.1)⟩
  · rw [Bool.not_eq_true] at hclosed
    show ctx.existence e c negated sub = .ok f ↔ _
    rw [Context.existence_eq hclosed, Context.withinDepth_eq_ok]
    exact (and_iff_right hclosed).symm

end RowFilter
