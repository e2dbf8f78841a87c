import RowFilter.Proofs.Parameters

/-!
# Value sets

A value set keeps a slot for each parameter of its filter, a value or none in each slot, and the
number of slots without one. The slots are taken from the filter again wherever a set begins, and
the number is only ever counted down; that both still say the same after any supplying and
decoding is what everything that reads a value set relies on.
-/

namespace RowFilter

/-! ## Places among those that count -/

section Counting

variable {α : Type} {p : α → Bool} {x : α} {xs : List α}

/-- What counts has in the filtered list the place that the count in front of it says. -/
theorem getElem?_filter_eq_some {k : Nat} :
    (xs.filter p)[k]? = some x ↔
      ∃ n : Nat, xs[n]? = some x ∧ p x = true ∧ (xs.take n).countP p = k := by
  induction xs generalizing k with
  | nil => simp
  | cons a xs ih =>
    by_cases ha : p a = true
    · rw [List.filter_cons_of_pos ha]
      cases k with
      | zero =>
        constructor
        · intro hx
          obtain rfl := Option.some.inj hx
          exact ⟨0, rfl, ha, rfl⟩
        · rintro ⟨n, hn, -, hcount⟩
          cases n with
          | zero => exact hn
          | succ n =>
            rw [List.take_succ_cons, List.countP_cons_of_pos ha] at hcount
            exact absurd hcount (Nat.succ_ne_zero _)
      | succ k =>
        rw [List.getElem?_cons_succ, ih]
        constructor
        · rintro ⟨n, hn, hx, hcount⟩
          refine ⟨n + 1, hn, hx, ?_⟩
          rw [List.take_succ_cons, List.countP_cons_of_pos ha, hcount]
        · rintro ⟨n, hn, hx, hcount⟩
          cases n with
          | zero => exact absurd hcount (Nat.succ_ne_zero k).symm
          | succ n =>
            rw [List.take_succ_cons, List.countP_cons_of_pos ha] at hcount
            exact ⟨n, hn, hx, Nat.succ.inj hcount⟩
    · rw [List.filter_cons_of_neg ha, ih]
      constructor
      · rintro ⟨n, hn, hx, hcount⟩
        refine ⟨n + 1, hn, hx, ?_⟩
        rw [List.take_succ_cons, List.countP_cons_of_neg ha, hcount]
      · rintro ⟨n, hn, hx, hcount⟩
        cases n with
        | zero =>
          obtain rfl := Option.some.inj hn
          exact absurd hx ha
        | succ n =>
          rw [List.take_succ_cons, List.countP_cons_of_neg ha] at hcount
          exact ⟨n, hn, hx, hcount⟩

/-- What counts is counted for all that is behind it. -/
theorem countP_take_lt {m n : Nat} (hx : xs[m]? = some x) (hp : p x = true) (h : m < n) :
    (xs.take m).countP p < (xs.take n).countP p := by
  have hsucc : (xs.take (m + 1)).countP p = (xs.take m).countP p + 1 := by
    rw [List.take_add_one, hx, List.countP_append, Option.toList_some, List.countP_singleton,
      if_pos hp]
  have hmono : (xs.take (m + 1)).countP p ≤ (xs.take n).countP p :=
    (List.take_sublist_take_left h).countP_le
  omega

end Counting

/-! ## Filters with numbered parameters -/

namespace Filter

theorem find?_unbound_eq_none {f : Filter} :
    (f.leaves.find? fun l => l.operand = .unbound) = none ↔ f.isBound = true := by
  rw [List.find?_eq_none, isBound, List.all_eq_true]
  simp

theorem isBound_junction (e : String) (kind : Junction) (left right : Filter) :
    (junction e kind left right).isBound = (left.isBound && right.isBound) := by
  rw [isBound, leaves_junction, List.all_append]
  rfl

/-- Numbering leaves no parameter without a number. -/
theorem isBound_number (counters : Counters) (f : Filter) :
    (f.number counters).1.isBound = true := by
  induction f generalizing counters with
  | opened | closed => rfl
  | compare l =>
    obtain ⟨entity, shape, operand⟩ := l
    cases operand <;> rfl
  | existence e c negated sub ih => exact ih counters
  | junction e kind left right ihl ihr =>
    rw [number, isBound_junction, ihl, ihr]
    rfl

theorem isBound_bind (f : Filter) : f.bind.isBound = true := by
  by_cases h : f.isBound = true
  · rw [bind, if_pos h]
    exact h
  · rw [bind, if_neg h]
    exact f.isBound_number _

theorem InShape.leaf {f : Filter} (h : f.InShape) : ∀ l ∈ f.leaves, l.InShape := by
  induction f with
  | opened | closed => simp
  | compare l =>
    intro k hk
    rw [leaves_compare, List.mem_singleton] at hk
    rw [hk]
    exact h
  | existence e c negated sub ih => exact ih h.2.2
  | junction e kind left right ihl ihr =>
    intro l hl
    rw [leaves_junction, List.mem_append] at hl
    rcases hl with hl | hl
    · exact ihl h.1.2.2 l hl
    · exact ihr h.2.2.2 l hl

/-- The parameters of a bound filter are the comparisons with a number. -/
theorem mem_parameters {f : Filter} (h : f.isBound = true) {l : Leaf} :
    l ∈ f.parameters ↔ l ∈ f.leaves ∧ ∃ id, l.operand = .bound id := by
  rw [parameters, List.mem_filter]
  refine and_congr_right fun hl => ?_
  have hnumbered : l.operand ≠ .unbound := by
    simpa using List.all_eq_true.1 h l hl
  cases hoperand : l.operand with
  | unbound => exact absurd hoperand hnumbered
  | bound id => simp [Operand.isParameter]
  | constant v => simp [Operand.isParameter]

end Filter

/-! ## What every step keeps -/

/-- The value, if there is one, is as the property of the slot holds it. -/
def Slot.Settled (s : Slot) : Prop :=
  ∀ {kind : ScalarKind} {v : Value}, s.leaf.chain.final.property.kind = .scalar kind →
    s.value = some v → v.coerce? kind s.leaf.chain.final.property.nullable = some v

namespace ValueSet

/-- The parameters that have slots, slot by slot. -/
def leaves (vs : ValueSet) : List Leaf :=
  vs.slots.map Slot.leaf

/-- The parts of the value set agree with each other. -/
structure Coherent (vs : ValueSet) : Prop where
  bound : vs.filter.isBound = true
  inShape : ∀ l ∈ vs.filter.leaves, l.InShape
  leaves_eq : vs.leaves = vs.filter.parameters.eraseDups
  blank_eq : vs.blank = vs.slots.countP fun s => s.value.isNone
  settled : ∀ s ∈ vs.slots, s.Settled

variable {vs vs' : ValueSet} {v : Value}

/-- The empty values of a bound filter in shape are coherent. -/
theorem coherent_empty {f : Filter} (hbound : f.isBound = true)
    (hshape : ∀ l ∈ f.leaves, l.InShape) : (empty f).Coherent where
  bound := hbound
  inShape := hshape
  leaves_eq := by simp [leaves, empty, Function.comp_def]
  blank_eq := by simp [empty, List.countP_map, Function.comp_def]
  settled := by
    intro s hs kind v hkind hv
    obtain ⟨l, -, rfl⟩ := List.mem_map.1 hs
    have hnone : none = some v := hv
    cases hnone

namespace Coherent

/-- The slots are for the numbered comparisons of the filter. -/
theorem mem_leaves (h : vs.Coherent) {l : Leaf} :
    l ∈ vs.leaves ↔ l ∈ vs.filter.leaves ∧ ∃ id, l.operand = .bound id := by
  rw [h.leaves_eq, List.mem_eraseDups]
  exact Filter.mem_parameters h.bound

/-- They are in the order of first occurrences. -/
theorem pairwise_leaves (h : vs.Coherent) :
    vs.leaves.Pairwise fun l k => vs.filter.leaves.idxOf l < vs.filter.leaves.idxOf k := by
  have hparameter : ∀ {l}, l ∈ vs.filter.parameters.eraseDups → l.operand.isParameter = true := by
    intro l hl
    exact (List.mem_filter.1 (List.mem_eraseDups.1 hl)).2
  rw [h.leaves_eq]
  refine (pairwise_idxOf_eraseDups vs.filter.parameters).imp_of_mem ?_
  intro l k hl hk hlt
  exact idxOf_lt_of_filter (hparameter hl) (hparameter hk) hlt

/-- No comparison has two slots. -/
theorem nodup_leaves (h : vs.Coherent) : vs.leaves.Nodup := by
  rw [h.leaves_eq]
  exact nodup_eraseDups _

/-- Every slot is for a comparison with a scalar. -/
theorem scalar (h : vs.Coherent) {s : Slot} (hs : s ∈ vs.slots) :
    ∃ kind, s.leaf.chain.final.property.kind = .scalar kind := by
  have hleaf : s.leaf ∈ vs.leaves := List.mem_map_of_mem hs
  exact (h.inShape s.leaf (h.mem_leaves.1 hleaf).1).scalar

/-- Where a slot has no value, the number of such slots is not zero. -/
theorem blank_pos (h : vs.Coherent) {index : Nat} (hnone : vs.values[index]? = some none) :
    0 < vs.blank := by
  rw [values, List.getElem?_map] at hnone
  obtain ⟨s, hs, hvalue⟩ := Option.map_eq_some_iff.1 hnone
  rw [h.blank_eq, List.countP_pos_iff]
  refine ⟨s, List.mem_of_getElem? hs, ?_⟩
  rw [hvalue]
  rfl

end Coherent

/-! ## Putting values in -/

/-- Filling a slot puts the coerced value there; the number of slots without a value goes down
if this one had none. -/
theorem fill_eq_ok {index : Nat} {s : Slot} (hs : vs.slots[index]? = some s) :
    vs.fill index v = .ok vs' ↔ ∃ w, s.leaf.chain.coerce v = .ok w ∧
      vs' = ⟨vs.filter, vs.slots.set index ⟨s.leaf, some w⟩,
        if s.value.isNone then vs.blank - 1 else vs.blank⟩ := by
  unfold fill
  rw [hs]
  constructor
  · intro h
    obtain ⟨w, hw, h⟩ := bind_eq_ok.1 h
    exact ⟨w, hw, (pure_eq_ok.1 h).symm⟩
  · rintro ⟨w, hw, rfl⟩
    exact bind_eq_ok.2 ⟨w, hw, rfl⟩

/-- Values for all slots are filled in from the first slot on, unless there are too many. -/
theorem ofValues_eq (f : Filter) (values : List (Option Value)) :
    ofValues f values = if (empty f).slots.length < values.length then .error (empty f).overfull
      else (empty f).fillFrom 0 values :=
  rfl

/-- Filling a slot keeps the property. Values are supplied and decoded in such steps. -/
def KeptByFilling (P : ValueSet → Prop) : Prop :=
  ∀ ⦃vs vs' : ValueSet⦄ ⦃index : Nat⦄ ⦃v : Value⦄, P vs → vs.fill index v = .ok vs' → P vs'

namespace KeptByFilling

variable {P : ValueSet → Prop}

/-- Filling several slots keeps what filling one does, by induction on the values. -/
theorem fillFrom (hP : KeptByFilling P) (h : P vs) {index : Nat} {values : List (Option Value)}
    (hfill : vs.fillFrom index values = .ok vs') : P vs' := by
  induction values generalizing vs index with
  | nil => rwa [← Except.ok.inj hfill]
  | cons value rest ih =>
    cases value with
    | none => exact ih h hfill
    | some v =>
      obtain ⟨next, hnext, hfill⟩ := bind_eq_ok.1 hfill
      exact ih (hP h hnext) hfill

/-- Filling the first blank slot keeps it. -/
theorem supply (hP : KeptByFilling P) (h : P vs) (hsupply : vs.supply v = .ok vs') : P vs' := by
  unfold ValueSet.supply at hsupply
  split at hsupply
  · exact nomatch hsupply
  · exact hP h hsupply

/-- Supplying a list keeps it, by induction on the list. -/
theorem supplyAll (hP : KeptByFilling P) (h : P vs) {values : List Value}
    (hsupply : vs.supplyAll values = .ok vs') : P vs' := by
  induction values generalizing vs with
  | nil => rwa [← Except.ok.inj hsupply]
  | cons v rest ih =>
    obtain ⟨next, hnext, hsupply⟩ := bind_eq_ok.1 hsupply
    exact ih (hP.supply h hnext) hsupply

/-- Values that are given together have what the empty ones have. -/
theorem ofValues (hP : KeptByFilling P) {f : Filter} (h : P (empty f))
    {values : List (Option Value)} (hvalues : ValueSet.ofValues f values = .ok vs) : P vs := by
  rw [ofValues_eq] at hvalues
  split at hvalues
  · exact nomatch hvalues
  · exact hP.fillFrom h hvalues

end KeptByFilling

theorem filter_fill {index : Nat} (h : vs.fill index v = .ok vs') : vs'.filter = vs.filter := by
  cases hs : vs.slots[index]? with
  | none =>
    unfold fill at h
    rw [hs] at h
    rw [← Except.ok.inj h]
  | some s =>
    obtain ⟨w, -, rfl⟩ := (fill_eq_ok hs).1 h
    rfl

namespace Coherent

/-- Filling a slot with a value keeps the parts in agreement. -/
theorem fill (h : vs.Coherent) {index : Nat} (hfill : vs.fill index v = .ok vs') :
    vs'.Coherent := by
  cases hs : vs.slots[index]? with
  | none =>
    unfold ValueSet.fill at hfill
    rw [hs] at hfill
    rwa [← Except.ok.inj hfill]
  | some s =>
    obtain ⟨w, hw, rfl⟩ := (fill_eq_ok hs).1 hfill
    obtain ⟨hlt, hget⟩ := List.getElem?_eq_some_iff.1 hs
    have hmem : s ∈ vs.slots := List.mem_of_getElem? hs
    refine ⟨h.bound, h.inShape, ?_, ?_, ?_⟩
    · -- the slot stays the slot of its parameter
      have hlength : index < (vs.slots.map Slot.leaf).length := by
        rwa [List.length_map]
      have hleaf : (vs.slots.map Slot.leaf)[index] = s.leaf := by
        rw [List.getElem_map, hget]
      show (vs.slots.set index ⟨s.leaf, some w⟩).map Slot.leaf = _
      rw [List.map_set, ← hleaf, List.set_getElem_self]
      exact h.leaves_eq
    · show (if s.value.isNone then vs.blank - 1 else vs.blank) = _
      rw [List.countP_set hlt, hget, ← h.blank_eq]
      cases s.value <;> rfl
    · intro t ht
      rcases List.mem_or_eq_of_mem_set ht with ht | rfl
      · exact h.settled t ht
      · intro kind u hkind hu
        rw [← Option.some.inj hu]
        exact Chain.coerce_spec hw hkind

/-- One slot less is without a value when a value was supplied. -/
theorem blank_supply (h : vs.Coherent) (hsupply : vs.supply v = .ok vs') :
    vs'.blank + 1 = vs.blank := by
  unfold ValueSet.supply at hsupply
  split at hsupply
  · exact nomatch hsupply
  · next index hindex =>
    obtain ⟨hlt, hnone, -⟩ := List.findIdx?_eq_some_iff_getElem.1 hindex
    have hs : vs.slots[index]? = some vs.slots[index] := List.getElem?_eq_getElem hlt
    have hblank : vs.values[index]? = some none := by
      rw [values, List.getElem?_map, hs]
      exact congrArg some (Option.isNone_iff_eq_none.1 hnone)
    have hpos := h.blank_pos hblank
    obtain ⟨w, -, rfl⟩ := (fill_eq_ok hs).1 hsupply
    rw [if_pos hnone]
    show vs.blank - 1 + 1 = vs.blank
    omega

/-- The number of slots without a value is the number of parameters that wait for one. -/
theorem length_blanks (h : vs.Coherent) : vs.blank = vs.blanks.length := by
  rw [h.blank_eq, List.countP_eq_length_filter, blanks, List.length_map]

/-- The counter says how many values are missing. -/
theorem count_none (h : vs.Coherent) : vs.blank = vs.values.count none := by
  rw [h.blank_eq, values, List.count_eq_countP, List.countP_map]
  refine List.countP_congr fun s _ => ?_
  cases hvalue : s.value <;> simp [hvalue]

/-- A value that stands in a slot is one that coercion leaves alone. -/
theorem coerced (h : vs.Coherent) {index : Nat} {l : Leaf} (hl : vs.leaves[index]? = some l)
    (hv : vs.values[index]? = some (some v)) :
    ∃ kind, l.chain.final.property.kind = .scalar kind ∧
      v.coerce? kind l.chain.final.property.nullable = some v := by
  rw [leaves, List.getElem?_map] at hl
  rw [values, List.getElem?_map] at hv
  obtain ⟨s, hs, rfl⟩ := Option.map_eq_some_iff.1 hl
  have hvalue : s.value = some v := by
    rw [hs] at hv
    exact Option.some.inj hv
  have hmem : s ∈ vs.slots := List.mem_of_getElem? hs
  obtain ⟨kind, hkind⟩ := h.scalar hmem
  exact ⟨kind, hkind, h.settled s hmem hkind hvalue⟩

end Coherent

/-- The place of a parameter among the slots is the place of its value. -/
theorem slot?_of_idxOf? {l : Leaf} {index : Nat} (h : vs.leaves.idxOf? l = some index) :
    ∃ value, vs.values[index]? = some value ∧ (vs.slot? l).map Slot.value = some value := by
  rw [leaves, List.idxOf?, List.findIdx?_map] at h
  obtain ⟨hlt, hfound, hbefore⟩ := List.findIdx?_eq_some_iff_getElem.1 h
  have hslot : vs.slot? l = some vs.slots[index] := by
    unfold slot?
    refine List.find?_eq_some_iff_getElem.2 ⟨by simpa using hfound, index, hlt, rfl, ?_⟩
    intro j hj
    simpa using hbefore j hj
  refine ⟨vs.slots[index].value, ?_, ?_⟩
  · rw [values, List.getElem?_map, List.getElem?_eq_getElem hlt]
    rfl
  · rw [hslot]
    rfl

end ValueSet

/-! ## Value sets that are decoded -/

variable {ctx : Context} {vs : ValueSet} {P : ValueSet → Prop} {Q : Filter → Prop}

/-- What an outline is rebuilt to has what the empty sets over bound filters have, if filling
keeps it. -/
theorem Context.kept_rebuildValues (hQ : Kept ctx Q) (hP : ValueSet.KeptByFilling P)
    (hempty : ∀ {f : Filter}, Q f → f.isBound = true → P (.empty f)) {o : ValuesOutline}
    (h : ctx.rebuildValues o = .ok vs) : P vs := by
  obtain ⟨f, hf, h⟩ := bind_eq_ok.1 h
  split at h
  · exact nomatch h
  · next hnone =>
    have hbound : f.isBound = true := Filter.find?_unbound_eq_none.1 hnone
    exact hP.ofValues (hempty (hQ.of_outline o.filter hf) hbound) h

/-! ## Value sets that arise -/

namespace ValueSet

open Pool

/-- The value sets that a program can come to hold, and those in between. -/
inductive Arises (ctx : Context) : ValueSet → Prop where
  /-- No value is supplied yet for a filter that a session handed out. -/
  | initial {pool : Pool} {held : List Instance} {i : Instance} (h : Reached ctx pool held)
      (hi : i ∈ held) : Arises ctx (ofFilter i.filter)
  | decoded {vs : ValueSet} {bytes : List UInt8} (h : ctx.decodeValues bytes = .ok vs) :
      Arises ctx vs
  | supplied {vs vs' : ValueSet} {v : Value} (h : Arises ctx vs) (hv : vs.supply v = .ok vs') :
      Arises ctx vs'
  | suppliedAll {vs vs' : ValueSet} {values : List Value} (h : Arises ctx vs)
      (hv : vs.supplyAll values = .ok vs') : Arises ctx vs'
  /-- A value is put into some slot: supplying and decoding are made of such steps. -/
  | filled {vs vs' : ValueSet} {index : Nat} {v : Value} (h : Arises ctx vs)
      (hv : vs.fill index v = .ok vs') : Arises ctx vs'

/-- What the empty sets over bound filters have, and filling keeps, everything that arises has. -/
theorem Arises.kept (hQ : Kept ctx Q) (hP : KeptByFilling P)
    (hempty : ∀ {f : Filter}, Q f → f.isBound = true → P (empty f)) (h : Arises ctx vs) :
    P vs := by
  induction h with
  | @initial pool held i h hi => exact hempty (hQ.bind (h.kept hQ i hi)) i.filter.isBound_bind
  | decoded h =>
    obtain ⟨o, -, h⟩ := bind_eq_ok.1 h
    exact Context.kept_rebuildValues hQ hP hempty h
  | supplied h hv ih => exact hP.supply ih hv
  | suppliedAll h hv ih => exact hP.supplyAll ih hv
  | filled h hv ih => exact hP ih hv

/-- Filling a slot keeps values coherent, the counter included. -/
theorem keptByFilling_coherent : KeptByFilling Coherent :=
  fun _ _ _ _ h hfill => h.fill hfill

/-- The parts of every value set that arises agree with each other. -/
theorem Arises.coherent (h : Arises ctx vs) : vs.Coherent :=
  h.kept (fits_kept ctx) keptByFilling_coherent
    fun hfits hbound => coherent_empty hbound hfits.inShape.leaf

/-- Whatever is supplied and decoded, the slots are those of the numbered parameters of the
filter, once each and in the order of their first occurrences; there is a value or none for each,
a value is as the property holds it, and the number kept is that of the slots without one. So the
number is not zero where it is counted down, and the places of slots are places of values. -/
theorem Arises.slots_and_values (h : Arises ctx vs) :
    (vs.filter.isBound = true ∧
      (∀ l, l ∈ vs.leaves ↔ l ∈ vs.filter.leaves ∧ ∃ id, l.operand = .bound id) ∧
      vs.leaves.Nodup ∧
      vs.leaves.Pairwise fun l k => vs.filter.leaves.idxOf l < vs.filter.leaves.idxOf k) ∧
    (vs.values.length = vs.leaves.length ∧ vs.blank = vs.values.count none ∧
      vs.blank = vs.blanks.length ∧
      ∀ (index : Nat) l v, vs.leaves[index]? = some l → vs.values[index]? = some (some v) →
        ∃ kind, l.chain.final.property.kind = .scalar kind ∧
          v.coerce? kind l.chain.final.property.nullable = some v) ∧
    (∀ index : Nat, vs.values[index]? = some none → 0 < vs.blank) ∧
    (∀ v vs', vs.supply v = .ok vs' → vs'.blank + 1 = vs.blank) ∧
    (∀ index, vs.values.findIdx? Option.isNone = some index → index < vs.leaves.length) ∧
    ∀ l index, vs.leaves.idxOf? l = some index →
      ∃ value, vs.values[index]? = some value ∧ (vs.slot? l).map Slot.value = some value := by
  have hc := h.coherent
  have hlength : vs.values.length = vs.leaves.length := by
    rw [values, leaves, List.length_map, List.length_map]
  refine ⟨⟨hc.bound, fun l => hc.mem_leaves, hc.nodup_leaves, hc.pairwise_leaves⟩,
    ⟨hlength, hc.count_none, hc.length_blanks, fun index l v hl hv => hc.coerced hl hv⟩,
    fun index hnone => hc.blank_pos hnone, fun v vs' hsupply => hc.blank_supply hsupply, ?_,
    fun l index hindex => slot?_of_idxOf? hindex⟩
  intro index hindex
  obtain ⟨hlt, -, -⟩ := List.findIdx?_eq_some_iff_getElem.1 hindex
  rwa [← hlength]

/-! ### A hole -/

namespace Sample

open Pool.Sample

/-- The comparison of the total of an order with a numbered parameter. -/
def numbered : Leaf :=
  ⟨"order", ⟨⟨[], ⟨⟨⟨"total", .scalar .int, false⟩, "order"⟩, false⟩⟩, .eq⟩, .bound 0⟩

/-- The comparison of the amount of a line with a numbered parameter, which may be null. -/
def numberedAmount : Leaf :=
  ⟨"line", ⟨⟨[], ⟨⟨⟨"amount", .scalar .int, true⟩, "line"⟩, false⟩⟩, .eq⟩, .bound 0⟩

/-- The orders of some total with a line of some amount, the total said twice. -/
def twice : Filter :=
  .junction "order" .and
    (.junction "order" .and (.compare numbered)
      (.existence "order" ⟨[], ⟨⟨⟨"lines", .relation "line" .toMany, false⟩, "order"⟩, false⟩⟩
        false (.compare numberedAmount)))
    (.compare numbered)

/-- A value is there for the amount only, as it may be after decoding. -/
def hole : ValueSet :=
  ⟨twice, [⟨numbered, none⟩, ⟨numberedAmount, some .null⟩], 1⟩

/-- The hole is filled with an unsigned integer, which becomes a signed one. -/
def filledHole : ValueSet :=
  ⟨twice, [⟨numbered, some (.int 3)⟩, ⟨numberedAmount, some .null⟩], 0⟩

theorem arises_hole : Arises context hole := by
  obtain ⟨pool, i, hreached, hfilter⟩ := exists_reached (f := twice) (by decide +kernel)
  have hinitial : Arises context (ofFilter i.filter) :=
    .initial hreached (List.mem_singleton_self i)
  rw [hfilter] at hinitial
  have hfilled : (ofFilter twice).fill 1 .null = .ok hole := by
    decide +kernel
  exact .filled hinitial hfilled

theorem arises_filledHole : Arises context filledHole := by
  have hsupplied : hole.supply (.uint 3) = .ok filledHole := by
    decide +kernel
  exact .supplied arises_hole hsupplied

theorem slots_and_values_filledHole :
    Arises context filledHole ∧ filledHole.filter.leaves.length = 3 ∧
      filledHole.leaves = [numbered, numberedAmount] ∧
      filledHole.values = [some (.int 3), some .null] ∧
      filledHole.leaves.Nodup ∧ filledHole.blank = filledHole.values.count none := by
  have harises := arises_filledHole
  obtain ⟨⟨-, -, hnodup, -⟩, ⟨-, hcount, -⟩, -⟩ := Arises.slots_and_values harises
  exact ⟨harises, by decide +kernel, by decide +kernel, by decide +kernel, hnodup, hcount⟩

end Sample

end ValueSet

end RowFilter
