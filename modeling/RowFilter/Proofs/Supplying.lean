import RowFilter.Proofs.Conserving

/-!
# Supplying values in order

Values are supplied one after the other, each to the first slot that has none by then. After
decoding, the slots without a value may be anywhere among the others; but filling one of them leaves
the order of the rest, so a list of values comes to one step: the values are coerced to the
parameters that wait for one, in the order of the slots, and put into their slots. What cannot be
supplied is the first value that cannot be coerced, or else the first for which there is no slot.
-/

namespace RowFilter

/-- A value that cannot be coerced to the scalar at the end of the chain. -/
theorem Chain.coerce_eq_error {c : Chain} {v : Value} {kind : ScalarKind} {e : FilterError}
    (hkind : c.final.property.kind = .scalar kind) :
    c.coerce v = .error e ↔ v.coerce? kind c.final.property.nullable = none ∧
      e = .unsupportedConstant c.render (.kind v kind) := by
  unfold coerce
  rw [hkind]
  simp only [PropertyKind.scalar?]
  cases v.coerce? kind c.final.property.nullable with
  | none => simp [eq_comm]
  | some w => simp

/-- The slot with the value, if it has none and there is one. -/
def Slot.given (s : Slot) (value : Option Value) : Slot :=
  match s.value, value with
  | none, some w => ⟨s.leaf, some w⟩
  | _, _ => s

theorem Slot.given_of_none {s : Slot} (h : s.value = none) (w : Value) :
    s.given (some w) = ⟨s.leaf, some w⟩ := by
  simp only [given, h]

theorem Slot.given_of_some {s : Slot} {v : Value} (h : s.value = some v) (value : Option Value) :
    s.given value = s := by
  simp only [given, h]

@[simp] theorem Slot.given_nothing (s : Slot) : s.given none = s := by
  unfold given
  cases s.value <;> rfl

/-! ## Filling slots that have no value -/

/-- The slots with the values put into those that have none, in order and as far as they go. -/
def fillBlanks : List Slot → List Value → List Slot
  | [], _ => []
  | s :: slots, ws =>
    match s.value, ws with
    | none, w :: ws => ⟨s.leaf, some w⟩ :: fillBlanks slots ws
    | _, ws => s :: fillBlanks slots ws

section FillBlanks

variable {s : Slot} {slots : List Slot} {w : Value} {ws : List Value}

/-- The first value goes into the first empty slot. -/
theorem fillBlanks_cons_none (h : s.value = none) :
    fillBlanks (s :: slots) (w :: ws) = ⟨s.leaf, some w⟩ :: fillBlanks slots ws := by
  simp only [fillBlanks, h]

/-- A filled slot is passed over. -/
theorem fillBlanks_cons_some {v : Value} (h : s.value = some v) :
    fillBlanks (s :: slots) ws = s :: fillBlanks slots ws := by
  simp only [fillBlanks, h]

@[simp] theorem fillBlanks_nil (slots : List Slot) : fillBlanks slots [] = slots := by
  induction slots with
  | nil => rfl
  | cons s slots ih =>
    unfold fillBlanks
    cases s.value <;> exact congrArg (s :: ·) ih

/-- Slots stay the slots of their parameters. -/
theorem map_leaf_fillBlanks (slots : List Slot) (ws : List Value) :
    (fillBlanks slots ws).map Slot.leaf = slots.map Slot.leaf := by
  induction slots generalizing ws with
  | nil => rfl
  | cons s slots ih =>
    cases hs : s.value with
    | some v => rw [fillBlanks_cons_some hs, List.map_cons, List.map_cons, ih]
    | none =>
      cases ws with
      | nil => rw [fillBlanks_nil]
      | cons w ws => rw [fillBlanks_cons_none hs, List.map_cons, List.map_cons, ih]

/-- The slots without a value that are left are the last ones. -/
theorem filter_fillBlanks (slots : List Slot) (ws : List Value) :
    ((fillBlanks slots ws).filter fun s => s.value.isNone) =
      (slots.filter fun s => s.value.isNone).drop ws.length := by
  induction slots generalizing ws with
  | nil => simp [fillBlanks]
  | cons s slots ih =>
    cases hs : s.value with
    | some v =>
      rw [fillBlanks_cons_some hs, List.filter_cons_of_neg (by simp [hs]),
        List.filter_cons_of_neg (by simp [hs]), ih]
    | none =>
      cases ws with
      | nil => rw [fillBlanks_nil, List.length_nil, List.drop_zero]
      | cons w ws =>
        rw [fillBlanks_cons_none hs, List.filter_cons_of_neg (by simp),
          List.filter_cons_of_pos (by simp [hs]), ih, List.length_cons, List.drop_succ_cons]

/-- Filling one slot and then others is filling all of them at once. -/
theorem fillBlanks_fillBlanks (slots : List Slot) (w : Value) (ws : List Value) :
    fillBlanks (fillBlanks slots [w]) ws = fillBlanks slots (w :: ws) := by
  induction slots with
  | nil => rfl
  | cons s slots ih =>
    cases hs : s.value with
    | some v =>
      rw [fillBlanks_cons_some hs, fillBlanks_cons_some hs, fillBlanks_cons_some hs, ih]
    | none =>
      rw [fillBlanks_cons_none hs, fillBlanks_cons_none hs, fillBlanks_nil]
      exact fillBlanks_cons_some (v := w) rfl

/-- Each slot without a value takes the one in the list that the slots without a value in front of
it leave to it. -/
theorem getElem?_fillBlanks (slots : List Slot) (ws : List Value) (p : Nat) :
    (fillBlanks slots ws)[p]? = slots[p]?.map fun s =>
      s.given ws[(slots.take p).countP fun t => t.value.isNone]? := by
  induction slots generalizing ws p with
  | nil => rfl
  | cons s slots ih =>
    cases hs : s.value with
    | some v =>
      rw [fillBlanks_cons_some hs]
      cases p with
      | zero => exact congrArg some (Slot.given_of_some hs _).symm
      | succ p =>
        rw [List.getElem?_cons_succ, List.getElem?_cons_succ, ih, List.take_succ_cons,
          List.countP_cons_of_neg (by simp [hs])]
    | none =>
      cases ws with
      | nil => simp only [fillBlanks_nil, List.getElem?_nil, Slot.given_nothing, Option.map_id']
      | cons w ws =>
        rw [fillBlanks_cons_none hs]
        cases p with
        | zero => exact congrArg some (Slot.given_of_none hs w).symm
        | succ p =>
          rw [List.getElem?_cons_succ, List.getElem?_cons_succ, ih, List.take_succ_cons,
            List.countP_cons_of_pos (by simp [hs]), List.getElem?_cons_succ]

/-- The first slot without a value, if there is one, is the one that a single value goes to. -/
theorem set_eq_fillBlanks {index : Nat}
    (h : (slots.findIdx? fun s => s.value.isNone) = some index) :
    ∃ s rest, slots[index]? = some s ∧ s.value = none ∧
      (slots.filter fun s => s.value.isNone) = s :: rest ∧
      ∀ w, slots.set index ⟨s.leaf, some w⟩ = fillBlanks slots [w] := by
  induction slots generalizing index with
  | nil => exact nomatch h
  | cons t slots ih =>
    rw [List.findIdx?_cons] at h
    cases ht : t.value with
    | none =>
      rw [ht] at h
      obtain rfl := Option.some.inj h
      refine ⟨t, _, rfl, ht, List.filter_cons_of_pos (by simp [ht]), fun w => ?_⟩
      rw [fillBlanks_cons_none ht, fillBlanks_nil]
      rfl
    | some v =>
      rw [ht] at h
      obtain ⟨m, hm, rfl⟩ := Option.map_eq_some_iff.1 h
      obtain ⟨s, rest, hs, hnone, hfilter, hset⟩ := ih hm
      refine ⟨s, rest, hs, hnone, ?_, fun w => ?_⟩
      · rw [List.filter_cons_of_neg (by simp [ht]), hfilter]
      · rw [fillBlanks_cons_some ht, ← hset, List.set_cons_succ]

end FillBlanks

namespace ValueSet

variable {ctx : Context} {vs vs' : ValueSet} {l : Leaf} {rest : List Leaf} {ws : List Value}

/-! ## A list of values in one step -/

/-- The value set with the values in the slots that have none, in order. -/
def filled (vs : ValueSet) (ws : List Value) : ValueSet :=
  ⟨vs.filter, fillBlanks vs.slots ws, vs.blank - ws.length⟩

/-- The slots that were filled are blank no more; those behind them still are. -/
theorem blanks_filled (vs : ValueSet) (ws : List Value) :
    (vs.filled ws).blanks = vs.blanks.drop ws.length := by
  unfold blanks filled
  rw [filter_fillBlanks, List.map_drop]

theorem leaves_filled (vs : ValueSet) (ws : List Value) : (vs.filled ws).leaves = vs.leaves :=
  map_leaf_fillBlanks vs.slots ws

theorem length_slots_filled (vs : ValueSet) (ws : List Value) :
    (vs.filled ws).slots.length = vs.slots.length := by
  have hlength := congrArg List.length (vs.leaves_filled ws)
  rwa [leaves, leaves, List.length_map, List.length_map] at hlength

theorem overfull_filled (vs : ValueSet) (ws : List Value) :
    (vs.filled ws).overfull = vs.overfull := by
  rw [overfull, overfull, length_slots_filled]

/-- Values given one by one fill what they fill together. -/
theorem filled_filled (vs : ValueSet) (w : Value) (ws : List Value) :
    (vs.filled [w]).filled ws = vs.filled (w :: ws) := by
  unfold filled
  rw [fillBlanks_fillBlanks, List.length_singleton, List.length_cons, Nat.sub_sub, Nat.add_comm 1]

/-- Where no slot is blank a value is one too many. -/
theorem supply_of_nil (h : vs.blanks = []) (v : Value) : vs.supply v = .error vs.overfull := by
  have hnone : (vs.slots.findIdx? fun s => s.value.isNone) = none := by
    rw [List.findIdx?_eq_none_iff]
    intro s hs
    exact Bool.eq_false_iff.2 (List.filter_eq_nil_iff.1 (List.map_eq_nil_iff.1 h) s hs)
  unfold supply
  rw [hnone]

/-- A value is coerced to the comparison of the first blank slot. -/
theorem supply_of_cons (h : vs.blanks = l :: rest) (v : Value) :
    vs.supply v = do return vs.filled [← l.chain.coerce v] := by
  unfold supply
  cases hfind : vs.slots.findIdx? fun s => s.value.isNone with
  | none =>
    rw [List.findIdx?_eq_none_iff] at hfind
    have hnil : (vs.slots.filter fun s => s.value.isNone) = [] :=
      List.filter_eq_nil_iff.2 fun s hs => by simp [hfind s hs]
    rw [blanks, hnil] at h
    cases h
  | some index =>
    obtain ⟨s, others, hs, hnone, hfilter, hset⟩ := set_eq_fillBlanks hfind
    obtain ⟨rfl, -⟩ : s.leaf = l ∧ others.map Slot.leaf = rest := by
      rw [blanks, hfilter, List.map_cons] at h
      exact List.cons.inj h
    have hfilled : ∀ w, (⟨vs.filter, vs.slots.set index ⟨s.leaf, some w⟩,
        if s.value.isNone then vs.blank - 1 else vs.blank⟩ : ValueSet) = vs.filled [w] := by
      intro w
      rw [filled, ← hset, hnone]
      rfl
    show vs.fill index v = _
    unfold fill
    rw [hs]
    exact congrArg (s.leaf.chain.coerce v >>= ·) (funext fun w => congrArg Except.ok (hfilled w))

/-- Supplying values one after the other is coercing them to the parameters that wait for one, as
far as there are any, and putting them into the slots, if there are slots for all of them. -/
theorem supplyAll_eq (vs : ValueSet) (xs : List Value) :
    vs.supplyAll xs = (do
      let ws ← (vs.blanks.zip xs).mapM fun p => p.1.chain.coerce p.2
      if vs.blanks.length < xs.length then .error vs.overfull else .ok (vs.filled ws)) := by
  induction xs generalizing vs with
  | nil =>
    rw [List.zip_nil_right, List.mapM_nil]
    show Except.ok vs = Except.ok (vs.filled [])
    rw [filled, fillBlanks_nil]
    rfl
  | cons x xs ih =>
    show (vs.supply x >>= fun next => next.supplyAll xs) = _
    cases hblanks : vs.blanks with
    | nil =>
      rw [supply_of_nil hblanks, List.zip_nil_left, List.mapM_nil]
      rfl
    | cons l rest =>
      have hrest : ∀ w, (vs.filled [w]).blanks = rest := by
        intro w
        rw [blanks_filled, hblanks]
        rfl
      rw [supply_of_cons hblanks, List.zip_cons_cons, List.mapM_cons]
      show (l.chain.coerce x >>= fun w => pure (vs.filled [w])) >>= _ = _
      cases l.chain.coerce x with
      | error e => rfl
      | ok w =>
        show (vs.filled [w]).supplyAll xs = _
        rw [ih, hrest, overfull_filled]
        show _ = ((rest.zip xs).mapM (fun p => p.1.chain.coerce p.2) >>= fun ws =>
          pure (w :: ws)) >>= _
        cases (rest.zip xs).mapM fun p => p.1.chain.coerce p.2 with
        | error e => rfl
        | ok ws =>
          show (if _ then _ else _) = if _ then _ else _
          rw [filled_filled, List.length_cons, List.length_cons]
          simp only [Nat.add_lt_add_iff_right]

/-- Supplying succeeds if there are slots enough and each value coerces to its slot. -/
theorem supplyAll_eq_ok {xs : List Value} :
    vs.supplyAll xs = .ok vs' ↔ xs.length ≤ vs.blanks.length ∧
      ∃ ws, (vs.blanks.zip xs).mapM (fun p => p.1.chain.coerce p.2) = .ok ws ∧
        vs.filled ws = vs' := by
  rw [supplyAll_eq, bind_eq_ok]
  constructor
  · rintro ⟨ws, hws, h⟩
    split at h
    · cases h
    · next hfits => exact ⟨Nat.not_lt.1 hfits, ws, hws, Except.ok.inj h⟩
  · rintro ⟨hfits, ws, hws, rfl⟩
    exact ⟨ws, hws, if_neg (Nat.not_lt.2 hfits)⟩

/-- It fails with the first value that does not coerce, and with too many values only if all that
have slots do. -/
theorem supplyAll_eq_error {xs : List Value} {e : FilterError} :
    vs.supplyAll xs = .error e ↔
      (vs.blanks.zip xs).mapM (fun p => p.1.chain.coerce p.2) = .error e ∨
        (∃ ws, (vs.blanks.zip xs).mapM (fun p => p.1.chain.coerce p.2) = .ok ws) ∧
          vs.blanks.length < xs.length ∧ e = vs.overfull := by
  rw [supplyAll_eq, bind_eq_error]
  refine or_congr_right ⟨?_, ?_⟩
  · rintro ⟨ws, hws, h⟩
    split at h
    · next hmany => exact ⟨⟨ws, hws⟩, hmany, (Except.error.inj h).symm⟩
    · cases h
  · rintro ⟨⟨ws, hws⟩, hmany, rfl⟩
    exact ⟨ws, hws, if_pos hmany⟩

/-! ## Slots that wait for a value -/

/-- The slot at this place has no value, and `k` of those in front of it have none. -/
structure BlankAt (vs : ValueSet) (k p : Nat) (s : Slot) : Prop where
  slot : vs.slots[p]? = some s
  blank : s.value = none
  before : (vs.slots.take p).countP (fun t => t.value.isNone) = k

variable {j k p q : Nat} {s t : Slot} {x : Value} {xs : List Value}

/-- The blank slots in order are the empty places in order. -/
theorem getElem?_blanks_eq_some :
    vs.blanks[k]? = some l ↔ ∃ p s, vs.BlankAt k p s ∧ s.leaf = l := by
  rw [blanks, List.getElem?_map, Option.map_eq_some_iff]
  constructor
  · rintro ⟨s, hs, rfl⟩
    obtain ⟨p, hp, hblank, hbefore⟩ := getElem?_filter_eq_some.1 hs
    exact ⟨p, s, ⟨hp, Option.isNone_iff_eq_none.1 hblank, hbefore⟩, rfl⟩
  · rintro ⟨p, s, h, rfl⟩
    have hblank : s.value.isNone = true := Option.isNone_iff_eq_none.2 h.blank
    exact ⟨s, getElem?_filter_eq_some.2 ⟨p, h.slot, hblank, h.before⟩, rfl⟩

/-- The parameter of the slot is the one that the value in its place is supplied for. -/
theorem getElem?_zip_blanks :
    (vs.blanks.zip xs)[k]? = some (l, x) ↔
      ∃ p s, vs.BlankAt k p s ∧ s.leaf = l ∧ xs[k]? = some x := by
  rw [List.getElem?_zip_eq_some, getElem?_blanks_eq_some]
  constructor
  · rintro ⟨⟨p, s, h, hl⟩, hx⟩
    exact ⟨p, s, h, hl, hx⟩
  · rintro ⟨p, s, h, hl, hx⟩
    exact ⟨⟨p, s, h, hl⟩, hx⟩

/-- Of two empty places the one further left is filled first. -/
theorem BlankAt.lt_of_lt (h : vs.BlankAt j p s) (h' : vs.BlankAt k q t) (hlt : p < q) : j < k := by
  rw [← h.before, ← h'.before]
  exact countP_take_lt h.slot (Option.isNone_iff_eq_none.2 h.blank) hlt

/-- The slots that wait for a value are counted in their order. -/
theorem BlankAt.lt_iff (h : vs.BlankAt j p s) (h' : vs.BlankAt k q t) : j < k ↔ p < q := by
  refine ⟨fun hlt => ?_, h.lt_of_lt h'⟩
  by_contra hnot
  rcases Nat.lt_or_eq_of_le (Nat.not_lt.1 hnot) with hbehind | rfl
  · have hback := h'.lt_of_lt h hbehind
    omega
  · have hsame := h.before.symm.trans h'.before
    omega

/-- The counter says how many empty places there are. -/
theorem Coherent.lt_blank_iff (h : vs.Coherent) : k < vs.blank ↔ ∃ p s, vs.BlankAt k p s := by
  rw [h.length_blanks]
  constructor
  · intro hk
    obtain ⟨p, s, hat, -⟩ := getElem?_blanks_eq_some.1 (List.getElem?_eq_getElem hk)
    exact ⟨p, s, hat⟩
  · rintro ⟨p, s, hat⟩
    exact (List.getElem?_eq_some_iff.1 (getElem?_blanks_eq_some.2 ⟨p, s, hat, rfl⟩)).1

/-- All values up to some place can be coerced to the parameters that they are supplied for. -/
theorem coerced_iff {limit : Nat} :
    (∀ (k : Nat) a, k < limit → (vs.blanks.zip xs)[k]? = some a →
        ∃ w, a.1.chain.coerce a.2 = .ok w) ↔
      ∀ k p s x, k < limit → vs.BlankAt k p s → xs[k]? = some x →
        ∃ w, s.leaf.chain.coerce x = .ok w := by
  constructor
  · intro h k p s x hk hat hx
    exact h k (s.leaf, x) hk (getElem?_zip_blanks.2 ⟨p, s, hat, rfl, hx⟩)
  · intro h k a hk ha
    obtain ⟨p, s, hat, hleaf, hx⟩ := getElem?_zip_blanks.1 ha
    rw [← hleaf]
    exact h k p s a.2 hk hat hx

/-! ## What becomes of the slots -/

theorem length_of_mapM (hfits : xs.length ≤ vs.blanks.length)
    (hws : (vs.blanks.zip xs).mapM (fun p => p.1.chain.coerce p.2) = .ok ws) :
    ws.length = xs.length := by
  rw [(getElem?_of_mapM hws).1, List.length_zip, Nat.min_eq_right hfits]

/-- What a place holds afterwards, by the number of empty places in front of it. -/
theorem getElem?_filled (vs : ValueSet) (ws : List Value) (p : Nat) :
    (vs.filled ws).slots[p]? = vs.slots[p]?.map fun s =>
      s.given ws[(vs.slots.take p).countP fun t => t.value.isNone]? :=
  getElem?_fillBlanks vs.slots ws p

/-- A value ends up in its slot, as it was coerced. -/
theorem slot_of_supplyAll (h : vs.supplyAll xs = .ok vs') (hat : vs.BlankAt k p s)
    (hx : xs[k]? = some x) :
    ∃ w, s.leaf.chain.coerce x = .ok w ∧ vs'.slots[p]? = some ⟨s.leaf, some w⟩ := by
  obtain ⟨-, ws, hws, rfl⟩ := supplyAll_eq_ok.1 h
  obtain ⟨w, hw, hcoerced⟩ :=
    (getElem?_of_mapM hws).2 (getElem?_zip_blanks.2 ⟨p, s, hat, rfl, hx⟩)
  refine ⟨w, hcoerced, ?_⟩
  rw [getElem?_filled, hat.slot, Option.map_some, hat.before, hw, Slot.given_of_none hat.blank]

/-- Places that no value is for stay as they were. -/
theorem slot_of_supplyAll_of_le (h : vs.supplyAll xs = .ok vs')
    (hother : ∀ k s, vs.BlankAt k p s → xs.length ≤ k) : vs'.slots[p]? = vs.slots[p]? := by
  obtain ⟨hfits, ws, hws, rfl⟩ := supplyAll_eq_ok.1 h
  have hlength := length_of_mapM hfits hws
  rw [getElem?_filled]
  cases hs : vs.slots[p]? with
  | none => rfl
  | some s =>
    refine congrArg some ?_
    cases hvalue : s.value with
    | some v => exact Slot.given_of_some hvalue _
    | none =>
      have hle := hother _ s ⟨hs, hvalue, rfl⟩
      rw [List.getElem?_eq_none (hlength ▸ hle)]
      exact Slot.given_nothing s

/-- What supplying the values one after the other does. The `k`-th value is for the `k`-th of the
slots without a value. -/
structure SuppliesInOrder (vs : ValueSet) (xs : List Value) : Prop where
  place : ∀ k, k < vs.blank ↔ ∃ p s, vs.BlankAt k p s
  ascending : ∀ {j k p q s t}, vs.BlankAt j p s → vs.BlankAt k q t → (j < k ↔ p < q)
  succeeds_iff : (∃ vs', vs.supplyAll xs = .ok vs') ↔ xs.length ≤ vs.blank ∧
    ∀ k p s x, vs.BlankAt k p s → xs[k]? = some x → ∃ w, s.leaf.chain.coerce x = .ok w
  taken : ∀ vs', vs.supplyAll xs = .ok vs' → ∀ k p s x, vs.BlankAt k p s → xs[k]? = some x →
    ∃ w, s.leaf.chain.coerce x = .ok w ∧ vs'.slots[p]? = some ⟨s.leaf, some w⟩
  others : ∀ vs', vs.supplyAll xs = .ok vs' → vs'.filter = vs.filter ∧ vs'.leaves = vs.leaves ∧
    ∀ p, (∀ k s, vs.BlankAt k p s → xs.length ≤ k) → vs'.slots[p]? = vs.slots[p]?
  left : ∀ vs', vs.supplyAll xs = .ok vs' →
    vs'.blank + xs.length = vs.blank ∧ vs'.blank = vs'.values.count none
  /-- The error is that of the first value that cannot be coerced, if all in front of it can, or
  else that of the first for which there is no slot. -/
  fails_iff : ∀ e, vs.supplyAll xs = .error e ↔ ∃ k x, xs[k]? = some x ∧
    (∀ j p s y, j < k → vs.BlankAt j p s → xs[j]? = some y →
      ∃ w, s.leaf.chain.coerce y = .ok w) ∧
    ((∃ p s kind, vs.BlankAt k p s ∧ s.leaf.chain.final.property.kind = .scalar kind ∧
        x.coerce? kind s.leaf.chain.final.property.nullable = none ∧
        e = .unsupportedConstant s.leaf.chain.render (.kind x kind)) ∨
      k = vs.blank ∧ e = .binding (.tooManyValues vs.slots.length))

namespace Coherent

/-- Supplying succeeds just if no value is too many and each coerces. -/
theorem supplyAll_succeeds_iff (h : vs.Coherent) (xs : List Value) :
    (∃ vs', vs.supplyAll xs = .ok vs') ↔ xs.length ≤ vs.blank ∧
      ∀ k p s x, vs.BlankAt k p s → xs[k]? = some x → ∃ w, s.leaf.chain.coerce x = .ok w := by
  rw [h.length_blanks]
  constructor
  · rintro ⟨vs', hvs'⟩
    refine ⟨(supplyAll_eq_ok.1 hvs').1, fun k p s x hat hx => ?_⟩
    obtain ⟨w, hw, -⟩ := slot_of_supplyAll hvs' hat hx
    exact ⟨w, hw⟩
  · rintro ⟨hfits, hall⟩
    obtain ⟨ws, hws⟩ : ∃ ws, (vs.blanks.zip xs).mapM (fun p => p.1.chain.coerce p.2) = .ok ws := by
      refine exists_mapM_eq_ok.2 fun k a ha => ?_
      obtain ⟨p, s, hat, hleaf, hx⟩ := getElem?_zip_blanks.1 ha
      rw [← hleaf]
      exact hall k p s a.2 hat hx
    exact ⟨vs.filled ws, supplyAll_eq_ok.2 ⟨hfits, ws, hws, rfl⟩⟩

/-- The error is that of the first value that does not fit, all in front of it fitting. -/
theorem supplyAll_fails_iff (h : vs.Coherent) (xs : List Value) (e : FilterError) :
    vs.supplyAll xs = .error e ↔ ∃ k x, xs[k]? = some x ∧
      (∀ j p s y, j < k → vs.BlankAt j p s → xs[j]? = some y →
        ∃ w, s.leaf.chain.coerce y = .ok w) ∧
      ((∃ p s kind, vs.BlankAt k p s ∧ s.leaf.chain.final.property.kind = .scalar kind ∧
          x.coerce? kind s.leaf.chain.final.property.nullable = none ∧
          e = .unsupportedConstant s.leaf.chain.render (.kind x kind)) ∨
        k = vs.blank ∧ e = .binding (.tooManyValues vs.slots.length)) := by
  rw [supplyAll_eq_error, mapM_eq_error, exists_mapM_eq_ok]
  constructor
  · rintro (⟨k, a, ha, herror, hbefore⟩ | ⟨hall, hmany, rfl⟩)
    · obtain ⟨p, s, hat, hleaf, hx⟩ := getElem?_zip_blanks.1 ha
      obtain ⟨kind, hkind⟩ := h.scalar (List.mem_of_getElem? hat.slot)
      rw [← hleaf] at herror
      obtain ⟨hnone, he⟩ := (Chain.coerce_eq_error hkind).1 herror
      exact ⟨k, a.2, hx, coerced_iff.1 hbefore, .inl ⟨p, s, kind, hat, hkind, hnone, he⟩⟩
    · refine ⟨vs.blanks.length, _, List.getElem?_eq_getElem hmany, ?_, .inr ⟨?_, rfl⟩⟩
      · exact coerced_iff.1 fun j a _ ha => hall j a ha
      · exact h.length_blanks.symm
  · rintro ⟨k, x, hx, hbefore, ⟨p, s, kind, hat, hkind, hnone, he⟩ | ⟨rfl, he⟩⟩
    · refine .inl ⟨k, (s.leaf, x), getElem?_zip_blanks.2 ⟨p, s, hat, rfl, hx⟩, ?_,
        coerced_iff.2 hbefore⟩
      exact (Chain.coerce_eq_error hkind).2 ⟨hnone, he⟩
    · obtain ⟨hmany, -⟩ := List.getElem?_eq_some_iff.1 hx
      rw [h.length_blanks] at hmany hbefore
      refine .inr ⟨fun j a ha => ?_, hmany, he⟩
      -- no more values are supplied than there are slots that wait for one
      have hlt := (List.getElem?_eq_some_iff.1 ha).1
      rw [List.length_zip] at hlt
      exact coerced_iff.2 hbefore j a (by omega) ha

theorem suppliesInOrder (h : vs.Coherent) (xs : List Value) : vs.SuppliesInOrder xs where
  place _ := h.lt_blank_iff
  ascending hat hat' := hat.lt_iff hat'
  succeeds_iff := h.supplyAll_succeeds_iff xs
  taken _ hvs' _ _ _ _ hat hx := slot_of_supplyAll hvs' hat hx
  others vs' hvs' := by
    refine ⟨?_, ?_, fun p hother => slot_of_supplyAll_of_le hvs' hother⟩
    · obtain ⟨-, ws, -, rfl⟩ := supplyAll_eq_ok.1 hvs'
      rfl
    · obtain ⟨-, ws, -, rfl⟩ := supplyAll_eq_ok.1 hvs'
      exact vs.leaves_filled ws
  left vs' hvs' := by
    refine ⟨?_, (keptByFilling_coherent.supplyAll h hvs').count_none⟩
    obtain ⟨hfits, ws, hws, rfl⟩ := supplyAll_eq_ok.1 hvs'
    have hlength := length_of_mapM hfits hws
    have hblank := h.length_blanks
    show vs.blank - ws.length + xs.length = vs.blank
    omega
  fails_iff := h.supplyAll_fails_iff xs

end Coherent

/-! ## Reading what was supplied -/

/-- At first each parameter is blank, in the order of the slots. -/
theorem blanks_empty {f : Filter} (h : f.parameters.Nodup) : (empty f).blanks = f.parameters := by
  simp [blanks, empty, eraseDups_of_nodup h, List.filter_map, Function.comp_def]

/-- In the slots of different parameters, filled in order, each parameter finds its value. -/
theorem map_find?_fillBlanks {ls : List Leaf} (h : ls.Nodup) (hlength : ws.length = ls.length) :
    (ls.map fun l => ((fillBlanks (ls.map fun l => ⟨l, none⟩) ws).find? fun s => s.leaf = l).bind
      Slot.value) = ws.map some := by
  induction ls generalizing ws with
  | nil => rw [List.length_eq_zero_iff.1 hlength]; rfl
  | cons l ls ih =>
    obtain ⟨hl, hls⟩ := List.nodup_cons.1 h
    obtain ⟨w, ws, rfl⟩ := List.exists_cons_of_length_eq_add_one hlength
    rw [List.map_cons, List.map_cons, List.map_cons, fillBlanks_cons_none rfl,
      ← ih hls (Nat.succ.inj hlength)]
    refine congrArg₂ List.cons ?_ (List.map_congr_left fun k hk => ?_)
    · rw [List.find?_cons_of_pos (by simp)]
      rfl
    · have hne : ¬l = k := fun hlk => hl (hlk ▸ hk)
      rw [List.find?_cons_of_neg (by simp [hne])]

/-- Where the parameters are different, what was supplied for all of them is read in the order in
which it was supplied. -/
theorem allValues_filled {f : Filter} (h : f.parameters.Nodup)
    (hcoherent : ((empty f).filled ws).Coherent) (hlength : ws.length = f.parameters.length) :
    ((empty f).filled ws).allValues = .ok ws := by
  have hslots : (empty f).slots = f.parameters.map fun l => ⟨l, none⟩ := by
    rw [empty, eraseDups_of_nodup h]
  have hfull : ((empty f).filled ws).isFull = true := by
    rw [isFull, hcoherent.length_blanks, blanks_filled, blanks_empty h, hlength,
      List.drop_length]
    rfl
  have hknown : ((empty f).filled ws).Knows f.leaves := by
    intro l hl hparam
    have hmem : l ∈ f.parameters := List.mem_filter.2 ⟨hl, hparam⟩
    rw [leaves_filled, leaves, hslots, List.map_map]
    simpa [Function.comp_def] using hmem
  obtain ⟨read, hread, hvalues⟩ := hcoherent.readFrom_of_isFull hfull hknown
  have hsupplied : (f.parameters.map ((empty f).filled ws).valueOf?) = ws.map some := by
    show (f.parameters.map fun l => ((fillBlanks (empty f).slots ws).find? _).bind _) = _
    rw [hslots]
    exact map_find?_fillBlanks h hlength
  rw [Filter.parameters, ← hvalues] at hsupplied
  rw [List.map_injective_iff.2 (Option.some_injective _) hsupplied] at hread
  exact hread

/-- Supplying values for all parameters, where these are different, and reading them is coercing
each value to its parameter. -/
theorem allValues_supplyAll {f : Filter} (hbound : f.isBound = true)
    (hshape : ∀ l ∈ f.leaves, l.InShape) (h : f.parameters.Nodup)
    (hlength : xs.length = f.parameters.length) :
    (do (← (empty f).supplyAll xs).allValues) =
      (f.parameters.zip xs).mapM fun p => p.1.chain.coerce p.2 := by
  cases hsupply : (empty f).supplyAll xs with
  | error e =>
    rcases supplyAll_eq_error.1 hsupply with herror | ⟨-, hmany, -⟩
    · rw [blanks_empty h] at herror
      exact herror.symm
    · rw [blanks_empty h] at hmany
      omega
  | ok vs' =>
    have hcoherent := keptByFilling_coherent.supplyAll (coherent_empty hbound hshape) hsupply
    obtain ⟨hfits, ws, hws, rfl⟩ := supplyAll_eq_ok.1 hsupply
    have hwhole : ws.length = f.parameters.length := (length_of_mapM hfits hws).trans hlength
    rw [blanks_empty h] at hws
    rw [hws]
    exact allValues_filled h hcoherent hwhole

/-! ## Value sets that arise -/

open Pool

/-- Whatever was supplied and decoded before, a list of values goes to the slots without a value in
their order, each value coerced to the type of its slot, and nothing else changes; or the error is
that of the first value that cannot be supplied. So a list may be supplied in two parts. And where
all parameters of a bound form are different, values for all of them are read in the order in which
they were supplied. -/
theorem Arises.supplies_in_order (h : Arises ctx vs) (xs : List Value) :
    vs.SuppliesInOrder xs ∧
      (∀ ys, vs.supplyAll (xs ++ ys) = do (← vs.supplyAll xs).supplyAll ys) ∧
      ∀ {pool : Pool} {held : List Instance} {i : Instance}, Reached ctx pool held → i ∈ held →
        i.filter.bind.parameters.Nodup → ∀ values : List Value,
          values.length = i.filter.bind.parameters.length →
            (do (← (ofFilter i.filter).supplyAll values).allValues) =
              (i.filter.bind.parameters.zip values).mapM fun p => p.1.chain.coerce p.2 := by
  refine ⟨h.coherent.suppliesInOrder xs, fun ys => List.foldlM_append, ?_⟩
  intro pool held i hreached hi hnodup values hlength
  have hinitial : (ofFilter i.filter).Coherent := (Arises.initial hreached hi).coherent
  exact allValues_supplyAll hinitial.bound hinitial.inShape hnodup hlength

namespace Sample

open Pool.Sample

/-- One value fills the hole and two are too many; and values for three different parameters are
read as they were supplied. -/
theorem supplies_in_order_hole :
    ∃ pool i, Arises context hole ∧ Reached context pool [i] ∧ i.filter = shared ∧
      (∃ vs', hole.supplyAll [.uint 3] = .ok vs' ∧ vs'.slots[0]? = some ⟨numbered, some (.int 3)⟩ ∧
        vs'.slots[1]? = hole.slots[1]? ∧ vs'.blank = 0) ∧
      hole.supplyAll [.uint 3, .null] = .error (.binding (.tooManyValues 2)) ∧
      (do (← (ofFilter i.filter).supplyAll [.int 3, .uint 5, .null]).allValues) =
        .ok [.int 3, .int 5, .null] := by
  obtain ⟨pool, i, hreached, hi⟩ := exists_reached (f := shared) (by decide +kernel)
  obtain ⟨hone, -, hread⟩ := Arises.supplies_in_order arises_hole [.uint 3]
  obtain ⟨htwo, -, -⟩ := Arises.supplies_in_order arises_hole [.uint 3, .null]
  have hat : hole.BlankAt 0 0 ⟨numbered, none⟩ := ⟨rfl, rfl, rfl⟩
  have hcoerced : numbered.chain.coerce (.uint 3) = .ok (.int 3) := by decide +kernel
  -- the other slot has a value, so the one is the only one that waits
  have honly : ∀ {k p s}, hole.BlankAt k p s → k = 0 ∧ p = 0 ∧ s = ⟨numbered, none⟩ := by
    intro k p s hat'
    match p, hat' with
    | 0, ⟨hslot, _, hbefore⟩ => exact ⟨hbefore.symm, rfl, (Option.some.inj hslot).symm⟩
    | 1, ⟨hslot, hblank, _⟩ =>
      obtain rfl := Option.some.inj hslot
      exact nomatch hblank
  refine ⟨pool, i, arises_hole, hreached, hi, ?_, ?_, ?_⟩
  · obtain ⟨vs', hvs'⟩ := hone.succeeds_iff.2 ⟨Nat.le_refl 1, fun k p s x hat' hx => by
      obtain ⟨rfl, rfl, rfl⟩ := honly hat'
      obtain rfl := Option.some.inj hx
      exact ⟨_, hcoerced⟩⟩
    obtain ⟨w, hw, hslot⟩ := hone.taken vs' hvs' 0 0 _ _ hat rfl
    obtain rfl := Except.ok.inj (hcoerced.symm.trans hw)
    obtain ⟨-, -, hothers⟩ := hone.others vs' hvs'
    obtain ⟨hblank, -⟩ := hone.left vs' hvs'
    refine ⟨vs', hvs', hslot, hothers 1 fun k s hat' => ?_, Nat.succ.inj hblank⟩
    exact absurd (honly hat').2.1 Nat.one_ne_zero
  · refine (htwo.fails_iff _).2 ⟨1, .null, rfl, fun j p s y hj hat' hy => ?_, .inr ⟨rfl, rfl⟩⟩
    obtain ⟨rfl, rfl, rfl⟩ := honly hat'
    obtain rfl := Option.some.inj hy
    exact ⟨_, hcoerced⟩
  · rw [hread hreached (List.mem_singleton_self i) (by rw [hi]; decide +kernel) _
      (by rw [hi]; decide +kernel), hi]
    decide +kernel

end Sample

end ValueSet

end RowFilter
