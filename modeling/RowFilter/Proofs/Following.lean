import RowFilter.Building
import RowFilter.Filter.Bind
import RowFilter.Proofs.Table

/-!
# Computing in a pool

What a pool remembers is sound if it is what the operations on filters give (`Sound`). A
computation in a pool *follows* one without a pool if, from every sound pool, it fails with the
same error or succeeds with a related result, and leaves a sound pool that still holds all its
instances. This file has the rules by which the relation is shown: it passes through `pure`,
failure, `bind` and the steps that need no pool.
-/

namespace RowFilter.Pool

open RowFilter.Grammar

variable {α β γ δ : Type} {ctx : Context} {pool : Pool}

/-- What is remembered is what would be computed. -/
structure Transparent (ctx : Context) (pool : Pool) : Prop where
  /-- A remembered complement is the complement, and remembers the instance as its own. -/
  complements : ∀ {n : Nat} {c : Instance}, pool.complements[n]? = some c →
    ∃ i : Instance, i.id = n ∧ pool.Holds i ∧ pool.Holds c ∧
      c.filter = i.filter.complement ∧ pool.complements[c.id]? = some i
  /-- A remembered bound form is the bound form. -/
  bound : ∀ {n : Nat} {b : Instance}, pool.bound[n]? = some b →
    ∃ i : Instance, i.id = n ∧ pool.Holds i ∧ pool.Holds b ∧ b.filter = i.filter.bind
  /-- What is remembered for the text of some tokens is what every text with these tokens
  spells, and there is such a text. -/
  parsed : ∀ {name key : String} {i : Instance}, pool.parsed[(name, key)]? = some i →
    pool.Holds i ∧ (∃ text tokens, scan text = .ok tokens ∧ Token.text tokens = key) ∧
      ∀ {text : String} {tokens : List Token}, scan text = .ok tokens →
        Token.text tokens = key → ctx.parse name text = .ok i.filter

/-- The table is in order, and what is remembered is what would be computed. -/
structure Sound (ctx : Context) (pool : Pool) : Prop extends
  Canonical pool, Transparent ctx pool

/-- The empty pool is in order and remembers nothing. -/
theorem sound_empty (ctx : Context) : Sound ctx empty := by
  refine { canonical_empty with complements := ?_, bound := ?_, parsed := ?_ }
  · intro n c h
    simp [empty] at h
  · intro n b h
    simp [empty] at h
  · intro name key i h
    simp [empty] at h

/-- A sound pool with more instances remembers no less soundly. -/
theorem Sound.of_grows {pool' : Pool} (hs : Sound ctx pool) (hc : Canonical pool')
    (hg : Grows pool pool') (hcomplements : pool'.complements = pool.complements)
    (hbound : pool'.bound = pool.bound) (hparsed : pool'.parsed = pool.parsed) :
    Sound ctx pool' := by
  refine { hc with complements := ?_, bound := ?_, parsed := ?_ }
  · intro n c h
    rw [hcomplements] at h ⊢
    obtain ⟨i, hid, hi, hcc, hf, hback⟩ := hs.complements h
    exact ⟨i, hid, hg i hi, hg c hcc, hf, hback⟩
  · intro n b h
    rw [hbound] at h
    obtain ⟨i, hid, hi, hb, hf⟩ := hs.bound h
    exact ⟨i, hid, hg i hi, hg b hb, hf⟩
  · intro name key i h
    rw [hparsed] at h
    obtain ⟨hi, hread⟩ := hs.parsed h
    exact ⟨hg i hi, hread⟩

/-- The instance is in the pool and is this filter. -/
def Stands (pool : Pool) (i : Instance) (f : Filter) : Prop :=
  pool.Holds i ∧ i.filter = f

/-- The instances are in the pool and are these filters. -/
def StandAll (pool : Pool) (is : List Instance) (fs : List Filter) : Prop :=
  (∀ i ∈ is, pool.Holds i) ∧ is.map Instance.filter = fs

/-- An instance stands for its filter. -/
theorem Holds.stands {i : Instance} (h : pool.Holds i) : Stands pool i i.filter :=
  ⟨h, rfl⟩

/-- It still does when there are more instances. -/
theorem Stands.grows {pool' : Pool} {i : Instance} {f : Filter} (h : Stands pool i f)
    (hg : Grows pool pool') : Stands pool' i f :=
  ⟨hg i h.1, h.2⟩

/-! ## Computations that cannot fail -/

/-- From a sound pool the computation gives a result as described, and leaves a sound pool that
holds all that the first one held. -/
def Yields (ctx : Context) (R : Pool → α → Prop) (pool : Pool) (x : Pooled α) : Prop :=
  Sound ctx pool → Sound ctx (x pool).2 ∧ Grows pool (x pool).2 ∧ R (x pool).2 (x pool).1

namespace Yields

variable {P Q : Pool → α → Prop} {R : Pool → β → Prop}

/-- The pool may be taken as sound. -/
theorem of_sound {x : Pooled α} (h : Sound ctx pool → Yields ctx P pool x) :
    Yields ctx P pool x :=
  fun hs => h hs hs

theorem pure {a : α} (h : P pool a) : Yields ctx P pool (Pure.pure a) :=
  fun hs => ⟨hs, Grows.refl _, h⟩

/-- Two steps, the second one in whatever pool the first one leaves. -/
theorem bind {x : Pooled α} {k : α → Pooled β} (hx : Yields ctx P pool x)
    (hk : ∀ pool' a, Grows pool pool' → P pool' a → Yields ctx R pool' (k a)) :
    Yields ctx R pool (x >>= k) := by
  intro hs
  obtain ⟨hs', hg, ha⟩ := hx hs
  obtain ⟨hs'', hg', hb⟩ := hk _ _ hg ha hs'
  exact ⟨hs'', hg.trans hg', hb⟩

theorem mono {x : Pooled α} (hx : Yields ctx P pool x) (h : ∀ pool' a, P pool' a → Q pool' a) :
    Yields ctx Q pool x := by
  intro hs
  obtain ⟨hs', hg, ha⟩ := hx hs
  exact ⟨hs', hg, h _ _ ha⟩

/-- The computation goes on with the pool as it is. -/
theorem get_bind {k : Pool → Pooled β} (h : Yields ctx R pool (k pool)) :
    Yields ctx R pool (get >>= k) :=
  h

/-- A change of the pool that keeps it sound and all its instances. -/
theorem modify_bind {f : Pool → Pool} {k : Unit → Pooled β}
    (hf : Sound ctx pool → Sound ctx (f pool) ∧ Grows pool (f pool))
    (hk : Yields ctx R (f pool) (k ())) : Yields ctx R pool (modify f >>= k) := by
  intro hs
  obtain ⟨hs', hg⟩ := hf hs
  obtain ⟨hs'', hg', hr⟩ := hk hs'
  exact ⟨hs'', hg.trans hg', hr⟩

end Yields

/-! ## Computations that can fail -/

/-- The same error, or related results. -/
def Agree (R : α → β → Prop) : Except FilterError α → Except FilterError β → Prop
  | .ok a, .ok b => R a b
  | .error e, .error e' => e = e'
  | _, _ => False

/-- Two computations that agree, and go on agreeing from related results, agree. -/
theorem Agree.bind {R : α → β → Prop} {S : γ → δ → Prop} {x : Except FilterError α}
    {y : Except FilterError β} {k : α → Except FilterError γ} {k' : β → Except FilterError δ}
    (h : Agree R x y) (hk : ∀ a b, R a b → Agree S (k a) (k' b)) :
    Agree S (x >>= k) (y >>= k') := by
  cases x <;> cases y
  · exact h
  · exact h.elim
  · exact h.elim
  · exact hk _ _ h

/-- From a sound pool the attempt comes to what the computation without a pool comes to. -/
def Follows (ctx : Context) (R : Pool → α → β → Prop) (pool : Pool) (x : Attempt α)
    (y : Except FilterError β) : Prop :=
  Yields ctx (fun pool' r => Agree (R pool') r y) pool x.run

namespace Follows

variable {P : Pool → α → β → Prop} {R : Pool → γ → δ → Prop}

/-- The pool may be taken as sound. -/
theorem of_sound {x : Attempt α} {y : Except FilterError β}
    (h : Sound ctx pool → Follows ctx P pool x y) : Follows ctx P pool x y :=
  Yields.of_sound h

theorem pure {a : α} {b : β} (h : P pool a b) : Follows ctx P pool (Pure.pure a) (Pure.pure b) :=
  Yields.pure (P := fun pool' r => Agree (P pool') r (.ok b)) h

theorem throw (e : FilterError) :
    Follows ctx P pool (MonadExcept.throw e) (MonadExcept.throw e) :=
  Yields.pure (P := fun pool' r => Agree (P pool') r (.error e)) rfl

/-- Two steps on both sides, the second ones from related results. -/
theorem bind {x : Attempt α} {y : Except FilterError β} {k : α → Attempt γ}
    {k' : β → Except FilterError δ} (hx : Follows ctx P pool x y)
    (hk : ∀ pool' a b, Grows pool pool' → P pool' a b → Follows ctx R pool' (k a) (k' b)) :
    Follows ctx R pool (x >>= k) (y >>= k') := by
  have hrun : (x >>= k).run = x.run >>= fun r => match r with
      | .ok a => (k a).run
      | .error e => Pure.pure (.error e) := by
    rw [ExceptT.run_bind]
    congr 1
    funext r
    cases r <;> rfl
  rw [Follows, hrun]
  refine Yields.bind hx fun pool' r hg hr => ?_
  cases r with
  | ok a =>
    cases y with
    | ok b => exact hk pool' a b hg hr
    | error e => exact hr.elim
  | error e =>
    cases y with
    | ok b => exact hr.elim
    | error e' =>
      obtain rfl : e = e' := hr
      exact Yields.pure (P := fun pool' r => Agree (R pool') r (.error e)) rfl

/-- A result is the one that the computation without a pool has. -/
theorem attained {x : Attempt α} {y : Except FilterError β} (hx : Follows ctx P pool x y) :
    Follows ctx (fun pool' a b => P pool' a b ∧ y = .ok b) pool x y := by
  refine Yields.mono hx fun pool' r hr => ?_
  cases r <;> cases y
  · exact hr
  · exact hr
  · exact hr
  · exact ⟨hr, rfl⟩

/-- An instance of a filter goes on as the instance, and the filter as what it stands for. -/
theorem bind_stands {x : Attempt Instance} {y : Except FilterError Filter}
    {k : Instance → Attempt γ} {k' : Filter → Except FilterError δ}
    (hx : Follows ctx Stands pool x y)
    (hk : ∀ pool' i, Grows pool pool' → pool'.Holds i →
      Follows ctx R pool' (k i) (k' i.filter)) :
    Follows ctx R pool (x >>= k) (y >>= k') := by
  refine Follows.bind hx fun pool' i f hg hi => ?_
  obtain ⟨hi, rfl⟩ := hi
  exact hk pool' i hg hi

/-- A step that cannot fail. -/
theorem lift {x : Pooled α} {b : β} (hx : Yields ctx (fun pool' a => P pool' a b) pool x) :
    Follows ctx P pool (liftM x) (.ok b) := by
  have hrun : (liftM x : Attempt α).run = x >>= fun a => Pure.pure (.ok a) := rfl
  rw [Follows, hrun]
  exact Yields.bind hx fun pool' a _ h =>
    Yields.pure (P := fun pool' r => Agree (P pool') r (.ok b)) h

/-- A step that needs no pool, and agrees with one on filters. -/
theorem ofAgree {x : Except FilterError α} {y : Except FilterError β}
    (h : Agree (P pool) x y) : Follows ctx P pool (MonadExcept.ofExcept x) y := by
  cases x <;> cases y
  · obtain rfl := h
    exact Follows.throw _
  · exact h.elim
  · exact h.elim
  · exact Follows.pure h

/-- A step that needs no pool comes first. -/
theorem ofExcept_bind {y : Except FilterError α} {k : α → Attempt γ}
    {k' : α → Except FilterError δ} (hk : ∀ a, y = .ok a → Follows ctx R pool (k a) (k' a)) :
    Follows ctx R pool (MonadExcept.ofExcept y >>= k) (MonadExcept.ofExcept y >>= k') := by
  cases y with
  | ok a => exact hk a rfl
  | error e => exact Follows.throw e

/-- The attempt goes on with the pool as it is. -/
theorem get_bind {k : Pool → Attempt α} {y : Except FilterError β}
    (h : Follows ctx P pool (k pool) y) : Follows ctx P pool (get >>= k) y :=
  h

/-- A change of the pool that keeps it sound and all its instances. -/
theorem modify_bind {f : Pool → Pool} {k : Unit → Attempt α} {y : Except FilterError β}
    (hf : Sound ctx pool → Sound ctx (f pool) ∧ Grows pool (f pool))
    (hk : Follows ctx P (f pool) (k ()) y) : Follows ctx P pool (modify f >>= k) y :=
  Yields.modify_bind (R := fun pool' r => Agree (P pool') r y) (k := fun u => (k u).run) hf hk

end Follows

end RowFilter.Pool
