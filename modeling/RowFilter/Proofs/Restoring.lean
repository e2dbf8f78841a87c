import RowFilter.Proofs.Outlines
import RowFilter.Proofs.ValueSets

/-!
# Value sets that come back from their outlines

Of a value set only the outline of its filter and the list of its values travel. Its slots are
taken from the filter again on arrival, where the filter is the same tree, so they are the same
slots in the same order; and the values, which are coerced already, go back in place by place as
they are, blanks staying blank. An outline from elsewhere passes the same checks one after the
other: the filter must be rebuilt, every parameter in it be numbered, the list be no longer than
the slots, and every value fit its slot.
-/

namespace RowFilter

variable {ctx : Context} {vs vs' : ValueSet}

/-! ## Filling slots in order -/

/-- What becomes of a slot that a value may have been given for. -/
inductive Slot.Takes : Slot → Option Value → Slot → Prop where
  | nothing {s : Slot} : Takes s none s
  | value {s : Slot} {v w : Value} (h : s.leaf.chain.coerce v = .ok w) :
      Takes s (some v) ⟨s.leaf, some w⟩

/-- A slot without its value takes the value back, if that is coerced to itself. -/
theorem Slot.Takes.restores {s s' : Slot} (h : Slot.Takes ⟨s.leaf, none⟩ s.value s')
    (hself : ∀ {v}, s.value = some v → s.leaf.chain.coerce v = .ok v) : s' = s := by
  obtain ⟨l, value⟩ := s
  cases h with
  | nothing => rfl
  | value hw =>
    rw [hself rfl] at hw
    obtain rfl := Except.ok.inj hw
    rfl

/-- The value in a slot that was empty is what it took, coerced. -/
theorem Slot.Takes.value_eq_some {l : Leaf} {given : Option Value} {s : Slot}
    (h : Slot.Takes ⟨l, none⟩ given s) {w : Value} :
    s.value = some w ↔ ∃ v, given = some v ∧ l.chain.coerce v = .ok w := by
  cases h with
  | nothing => simp
  | @value v w' hw =>
    have hcoerced : l.chain.coerce v = .ok w ↔ w' = w := by
      rw [hw]
      exact ⟨Except.ok.inj, congrArg _⟩
    simp [hcoerced]

namespace ValueSet

/-- Filling one slot leaves the others. -/
theorem getElem?_fill_of_ne {index place : Nat} {v : Value} (h : vs.fill index v = .ok vs')
    (hne : index ≠ place) : vs'.slots[place]? = vs.slots[place]? := by
  cases hs : vs.slots[index]? with
  | none =>
    unfold fill at h
    rw [hs] at h
    rw [← Except.ok.inj h]
  | some s =>
    obtain ⟨w, -, rfl⟩ := (fill_eq_ok hs).1 h
    exact List.getElem?_set_ne hne

/-- Filling slots from one on leaves those in front of it. -/
theorem getElem?_fillFrom_of_lt {index place : Nat} {values : List (Option Value)}
    (h : vs.fillFrom index values = .ok vs') (hlt : place < index) :
    vs'.slots[place]? = vs.slots[place]? := by
  induction values generalizing vs index with
  | nil => rw [← Except.ok.inj h]
  | cons value rest ih =>
    cases value with
    | none => exact ih h (by omega)
    | some v =>
      obtain ⟨next, hnext, h⟩ := bind_eq_ok.1 h
      rw [ih h (by omega), getElem?_fill_of_ne hnext (by omega)]

/-- Every slot from there on takes what the list has for it. -/
theorem takes_fillFrom {index n : Nat} {values : List (Option Value)}
    (h : vs.fillFrom index values = .ok vs') {s : Slot} (hs : vs.slots[index + n]? = some s) :
    ∃ s', vs'.slots[index + n]? = some s' ∧ s.Takes values[n]?.join s' := by
  induction values generalizing vs index n with
  | nil =>
    rw [← Except.ok.inj h]
    exact ⟨s, hs, .nothing⟩
  | cons value rest ih =>
    cases n with
    | zero =>
      -- the slot at hand is filled now, if at all, and not again
      have hnot : index + 0 < index + 1 := by omega
      cases value with
      | none =>
        have h : vs.fillFrom (index + 1) rest = .ok vs' := h
        exact ⟨s, (getElem?_fillFrom_of_lt h hnot).trans hs, .nothing⟩
      | some v =>
        obtain ⟨next, hnext, h⟩ := bind_eq_ok.1 h
        obtain ⟨w, hw, rfl⟩ := (fill_eq_ok hs).1 hnext
        obtain ⟨hlt, -⟩ := List.getElem?_eq_some_iff.1 hs
        refine ⟨⟨s.leaf, some w⟩, ?_, .value hw⟩
        rw [getElem?_fillFrom_of_lt h hnot]
        exact List.getElem?_set_self hlt
    | succ n =>
      have hplace : index + (n + 1) = index + 1 + n := by omega
      rw [hplace] at hs ⊢
      cases value with
      | none => exact ih h hs
      | some v =>
        obtain ⟨next, hnext, h⟩ := bind_eq_ok.1 h
        exact ih h ((getElem?_fill_of_ne hnext (by omega)).trans hs)

/-- Slots can be filled if every value fits the slot in its place. -/
theorem exists_fillFrom {index : Nat} {values : List (Option Value)}
    (hfit : ∀ n v, values[n]? = some (some v) →
      ∃ s w, vs.slots[index + n]? = some s ∧ s.leaf.chain.coerce v = .ok w) :
    ∃ vs', vs.fillFrom index values = .ok vs' := by
  induction values generalizing vs index with
  | nil => exact ⟨vs, rfl⟩
  | cons value rest ih =>
    have hrest : ∀ n v, rest[n]? = some (some v) →
        ∃ s w, vs.slots[index + 1 + n]? = some s ∧ s.leaf.chain.coerce v = .ok w := by
      intro n v hv
      rw [Nat.add_assoc, Nat.add_comm 1 n]
      exact hfit (n + 1) v hv
    cases value with
    | none => exact ih hrest
    | some v =>
      obtain ⟨s, w, hs, hw⟩ := hfit 0 v rfl
      have hnext := (fill_eq_ok hs).2 ⟨w, hw, rfl⟩
      obtain ⟨vs', h⟩ := ih fun n v hv => by
        have hne : index ≠ index + 1 + n := by omega
        rw [getElem?_fill_of_ne hnext hne]
        exact hrest n v hv
      exact ⟨vs', bind_eq_ok.2 ⟨_, hnext, h⟩⟩

/-! ## Values that go back in place -/

theorem keptByFilling_filter (Q : Filter → Prop) : KeptByFilling fun vs => Q vs.filter := by
  intro vs vs' index v h hfill
  rwa [filter_fill hfill]

theorem filter_ofValues {f : Filter} {values : List (Option Value)}
    (h : ofValues f values = .ok vs) : vs.filter = f :=
  (keptByFilling_filter (· = f)).ofValues rfl h

/-- A filter has an empty slot for each of its parameters, in their order. -/
theorem getElem?_slots_empty {f : Filter} {n : Nat} {l : Leaf}
    (hl : f.parameters.eraseDups[n]? = some l) :
    (empty f).slots[0 + n]? = some ⟨l, none⟩ := by
  rw [Nat.zero_add]
  show (f.parameters.eraseDups.map fun l => (⟨l, none⟩ : Slot))[n]? = _
  rw [List.getElem?_map, hl]
  rfl

theorem length_slots_empty (f : Filter) :
    (empty f).slots.length = f.parameters.eraseDups.length := List.length_map _

namespace Coherent

/-- The number of slots without a value is determined by the slots. -/
theorem ext (h : vs.Coherent) (h' : vs'.Coherent) (hfilter : vs.filter = vs'.filter)
    (hslots : vs.slots = vs'.slots) : vs = vs' := by
  have hblank := h.blank_eq
  rw [hslots, ← h'.blank_eq] at hblank
  obtain ⟨filter, slots, blank⟩ := vs
  obtain ⟨filter', slots', blank'⟩ := vs'
  obtain rfl : filter = filter' := hfilter
  obtain rfl : slots = slots' := hslots
  obtain rfl : blank = blank' := hblank
  rfl

/-- A slot that the filter gives anew is the one of the value set, without its value. -/
theorem slot_empty (h : vs.Coherent) {n : Nat} {s : Slot} (hs : vs.slots[n]? = some s) :
    (empty vs.filter).slots[0 + n]? = some ⟨s.leaf, none⟩ := by
  refine getElem?_slots_empty ?_
  rw [← h.leaves_eq, leaves, List.getElem?_map, hs]
  rfl

/-- A value in a slot is coerced to itself. -/
theorem coerce_self (h : vs.Coherent) {s : Slot} (hs : s ∈ vs.slots) {v : Value}
    (hv : s.value = some v) : s.leaf.chain.coerce v = .ok v := by
  obtain ⟨kind, hkind⟩ := h.scalar hs
  exact Chain.coerce_of_fixed hkind (h.settled s hs hkind hv)

/-- The filter and the values, slot by slot, are the whole value set. -/
theorem ofValues_values (h : vs.Coherent) : ofValues vs.filter vs.values = .ok vs := by
  have hvalue {n : Nat} {s : Slot} (hs : vs.slots[n]? = some s) :
      vs.values[n]?.join = s.value := by
    rw [values, List.getElem?_map, hs]
    rfl
  have hlength : ¬(empty vs.filter).slots.length < vs.values.length := by
    rw [length_slots_empty, ← h.leaves_eq, leaves, values, List.length_map, List.length_map]
    exact Nat.lt_irrefl _
  obtain ⟨vs', hfill⟩ : ∃ vs', (empty vs.filter).fillFrom 0 vs.values = .ok vs' := by
    refine exists_fillFrom fun n v hv => ?_
    rw [values, List.getElem?_map] at hv
    obtain ⟨s, hs, hvalue⟩ := Option.map_eq_some_iff.1 hv
    exact ⟨⟨s.leaf, none⟩, v, h.slot_empty hs, h.coerce_self (List.mem_of_getElem? hs) hvalue⟩
  have hvalues : ofValues vs.filter vs.values = .ok vs' := by
    rw [ofValues_eq, if_neg hlength, hfill]
  have hcoherent : vs'.Coherent :=
    keptByFilling_coherent.ofValues (coherent_empty h.bound h.inShape) hvalues
  have hfilter : vs'.filter = vs.filter := filter_ofValues hvalues
  have hleaves : vs'.leaves = vs.leaves := by
    rw [hcoherent.leaves_eq, h.leaves_eq, hfilter]
  have hslots : vs'.slots = vs.slots := by
    refine List.ext_getElem? fun n => ?_
    cases hs : vs.slots[n]? with
    | none =>
      have hsame : vs'.slots.length = vs.slots.length := by
        simpa [leaves] using congrArg List.length hleaves
      rw [List.getElem?_eq_none_iff] at hs ⊢
      omega
    | some s =>
      obtain ⟨s', hs', htakes⟩ := takes_fillFrom hfill (h.slot_empty hs)
      rw [hvalue hs] at htakes
      rw [Nat.zero_add] at hs'
      rw [hs', htakes.restores fun hv => h.coerce_self (List.mem_of_getElem? hs) hv]
  rw [hvalues, hcoherent.ext h hfilter hslots]

/-- Values put into empty slots: a slot has what its place in the list had for it, coerced. -/
theorem values_fillFrom (h : vs.Coherent) {values : List (Option Value)}
    (hfill : (empty vs.filter).fillFrom 0 values = .ok vs) {place : Nat} {w : Value} :
    vs.values[place]? = some (some w) ↔ ∃ l v, vs.leaves[place]? = some l ∧
      values[place]? = some (some v) ∧ l.chain.coerce v = .ok w := by
  rw [ValueSet.values, leaves, List.getElem?_map, List.getElem?_map]
  cases hs : vs.slots[place]? with
  | none => simp
  | some s =>
    obtain ⟨s', hs', htakes⟩ := takes_fillFrom hfill (h.slot_empty hs)
    rw [Nat.zero_add, hs] at hs'
    obtain rfl := Option.some.inj hs'
    simp only [Option.map_some, Option.some.injEq, htakes.value_eq_some, Option.join_eq_some_iff]
    simp

end Coherent

end ValueSet

/-! ## Outlines of value sets -/

namespace Context

variable {o : ValuesOutline} {f : Filter}

/-- What is no filter is no value set. -/
theorem rebuildValues_error {e : FilterError} (h : ctx.rebuild o.filter = .error e) :
    ctx.rebuildValues o = .error e := by
  unfold rebuildValues
  rw [h]
  rfl

/-- Once the filter is rebuilt, it is searched for a parameter without a number. -/
theorem rebuildValues_eq (hf : ctx.rebuild o.filter = .ok f) :
    ctx.rebuildValues o = match f.leaves.find? fun l => l.operand = .unbound with
      | some l => .error (.binding (.unbound l.render))
      | none => ValueSet.ofValues f o.values := by
  unfold rebuildValues
  rw [hf]
  rfl

/-- Over a bound filter only the values are left to look at. -/
theorem rebuildValues_of_isBound (hf : ctx.rebuild o.filter = .ok f) (hbound : f.isBound = true) :
    ctx.rebuildValues o = ValueSet.ofValues f o.values := by
  rw [rebuildValues_eq hf, Filter.find?_unbound_eq_none.2 hbound]

/-- A parameter without a number is an error, whatever the values are. -/
theorem rebuildValues_unbound (hf : ctx.rebuild o.filter = .ok f) (hunbound : f.isBound = false) :
    ∃ l ∈ f.leaves, l.operand = .unbound ∧
      ctx.rebuildValues o = .error (.binding (.unbound l.render)) := by
  cases hfind : f.leaves.find? fun l => l.operand = .unbound with
  | none =>
    rw [Filter.find?_unbound_eq_none.1 hfind] at hunbound
    exact nomatch hunbound
  | some l =>
    refine ⟨l, List.mem_of_find?_eq_some hfind, by simpa using List.find?_some hfind, ?_⟩
    rw [rebuildValues_eq hf, hfind]

/-- More values than slots are an error, even if those beyond the slots are blank. -/
theorem rebuildValues_overfull (hf : ctx.rebuild o.filter = .ok f) (hbound : f.isBound = true)
    (hmany : f.parameters.eraseDups.length < o.values.length) :
    ctx.rebuildValues o = .error (.binding (.tooManyValues f.parameters.eraseDups.length)) := by
  rw [rebuildValues_of_isBound hf hbound, ValueSet.ofValues_eq, ValueSet.length_slots_empty,
    if_pos hmany]
  unfold ValueSet.overfull
  rw [ValueSet.length_slots_empty]

/-- What any outline is rebuilt to has the filter that its outline describes, and agrees in
itself. -/
theorem of_rebuildValues (h : ctx.rebuildValues o = .ok vs) :
    ctx.rebuild o.filter = .ok vs.filter ∧ vs.Coherent ∧
      (ValueSet.empty vs.filter).fillFrom 0 o.values = .ok vs := by
  have hc : vs.Coherent := kept_rebuildValues (fits_kept ctx) ValueSet.keptByFilling_coherent
    (fun hfits hbound => ValueSet.coherent_empty hbound hfits.inShape.leaf) h
  obtain ⟨f, hf, -⟩ := bind_eq_ok.1 h
  have hbound : f.isBound = true := by
    by_contra hunbound
    obtain ⟨l, -, -, herror⟩ := rebuildValues_unbound hf (Bool.eq_false_iff.2 hunbound)
    rw [herror] at h
    exact nomatch h
  rw [rebuildValues_of_isBound hf hbound] at h
  obtain rfl := ValueSet.filter_ofValues h
  rw [ValueSet.ofValues_eq] at h
  split at h
  · exact nomatch h
  · exact ⟨hf, hc, h⟩

/-- Otherwise there is a value set exactly if every value fits the slot in its place. -/
theorem exists_rebuildValues (hf : ctx.rebuild o.filter = .ok f) (hbound : f.isBound = true)
    (hroom : o.values.length ≤ f.parameters.eraseDups.length) :
    (∃ vs, ctx.rebuildValues o = .ok vs) ↔
      ∀ (place : Nat) (v : Value), o.values[place]? = some (some v) →
        ∃ (l : Leaf) (w : Value), f.parameters.eraseDups[place]? = some l ∧
          l.chain.coerce v = .ok w := by
  rw [rebuildValues_of_isBound hf hbound, ValueSet.ofValues_eq, ValueSet.length_slots_empty,
    if_neg (Nat.not_lt.2 hroom)]
  constructor
  · rintro ⟨vs, hfill⟩ place v hv
    cases hl : f.parameters.eraseDups[place]? with
    | none =>
      obtain ⟨hlt, -⟩ := List.getElem?_eq_some_iff.1 hv
      rw [List.getElem?_eq_none_iff] at hl
      omega
    | some l =>
      obtain ⟨s, -, htakes⟩ := ValueSet.takes_fillFrom hfill (ValueSet.getElem?_slots_empty hl)
      rw [hv] at htakes
      cases htakes with
      | value hw => exact ⟨l, _, rfl, hw⟩
  · intro hfit
    refine ValueSet.exists_fillFrom fun place v hv => ?_
    obtain ⟨l, w, hl, hw⟩ := hfit place v hv
    exact ⟨⟨l, none⟩, w, ValueSet.getElem?_slots_empty hl, hw⟩

/-- A value set in agreement over a filter that the context can build comes back. -/
theorem rebuildValues_outline (hc : vs.Coherent) (hshape : vs.filter.InShape)
    (hdeclared : vs.filter.DeclaredIn ctx.schema)
    (hdepth : vs.filter.depth ≤ ctx.config.maxDepth) :
    ctx.rebuildValues vs.outline = .ok vs := by
  have hf : ctx.rebuild vs.outline.filter = .ok vs.filter :=
    rebuild_outline hshape hdeclared hdepth
  rw [rebuildValues_of_isBound hf hc.bound]
  exact hc.ofValues_values

/-- Reading the bytes comes first, and what they are read as decides the rest. -/
theorem decodeValues_eq {bytes : List UInt8}
    (h : Wire.decodeAs ValuesOutline.ofItem? bytes = .ok o) :
    ctx.decodeValues bytes = ctx.rebuildValues o := by
  unfold decodeValues
  rw [h]
  rfl

end Context

/-! ## Value sets that arise -/

open Pool Wire

theorem ValueSet.Arises.of_kept {Q : Filter → Prop} (h : ValueSet.Arises ctx vs)
    (hQ : Kept ctx Q) : Q vs.filter :=
  h.kept hQ (ValueSet.keptByFilling_filter Q) fun hf _ => hf

/-- Everything that arises in a context comes back from its outline, in any context over the same
schema whose limit allows the depth: with the same slots and contents, blank or null or a value,
over the one instance that a session of that context has of the filter. And an outline from
anywhere is rebuilt to a value set over a bound filter, each value coerced from the one in its
place and coerced to itself, or it is an error: if the filter has a parameter without a number, if
it has none but there are more values than slots, or else if a value does not fit its slot. -/
theorem Context.value_sets_come_back (ctx : Context) :
    (∀ vs, ValueSet.Arises ctx vs → vs.filter.depth ≤ ctx.config.maxDepth ∧
      ∀ ctx' : Context, ctx'.schema = ctx.schema → vs.filter.depth ≤ ctx'.config.maxDepth →
        ctx'.rebuildValues vs.outline = .ok vs ∧
        ∀ pool held, Reached ctx' pool held →
          ∃ i pool', (serve ctx' (.rebuild vs.outline.filter)).run pool = (.ok [i], pool') ∧
            i.filter = vs.filter ∧ pool'.instances[i.key]? = some i ∧
            ∀ k ∈ held, k.filter = vs.filter → i = k) ∧
    ∀ o : ValuesOutline,
      (∀ bytes, decodeAs ValuesOutline.ofItem? bytes = .ok o →
        ctx.decodeValues bytes = ctx.rebuildValues o) ∧
      (∀ e, ctx.rebuild o.filter = .error e → ctx.rebuildValues o = .error e) ∧
      (∀ vs, ctx.rebuildValues o = .ok vs →
        ctx.rebuild o.filter = .ok vs.filter ∧ vs.filter.isBound = true ∧
        vs.leaves = vs.filter.parameters.eraseDups ∧ vs.blank = vs.values.count none ∧
        (∀ (place : Nat) (w : Value), vs.values[place]? = some (some w) ↔
          ∃ (l : Leaf) (v : Value), vs.leaves[place]? = some l ∧
            o.values[place]? = some (some v) ∧ l.chain.coerce v = .ok w) ∧
        ∀ (place : Nat) (l : Leaf) (w : Value), vs.leaves[place]? = some l →
          vs.values[place]? = some (some w) → l.chain.coerce w = .ok w) ∧
      ∀ f, ctx.rebuild o.filter = .ok f →
        (f.isBound = false → ∃ l ∈ f.leaves, l.operand = .unbound ∧
          ctx.rebuildValues o = .error (.binding (.unbound l.render))) ∧
        (f.isBound = true → f.parameters.eraseDups.length < o.values.length →
          ctx.rebuildValues o =
            .error (.binding (.tooManyValues f.parameters.eraseDups.length))) ∧
        (f.isBound = true → o.values.length ≤ f.parameters.eraseDups.length →
          ((∃ vs, ctx.rebuildValues o = .ok vs) ↔
            ∀ (place : Nat) (v : Value), o.values[place]? = some (some v) →
              ∃ (l : Leaf) (w : Value), f.parameters.eraseDups[place]? = some l ∧
                l.chain.coerce v = .ok w)) := by
  refine ⟨?back, fun o => ⟨fun bytes => Context.decodeValues_eq,
    fun e => Context.rebuildValues_error, ?rebuilt, fun f hf => ⟨Context.rebuildValues_unbound hf,
      Context.rebuildValues_overfull hf, Context.exists_rebuildValues hf⟩⟩⟩
  case back =>
    intro vs harises
    obtain ⟨hfits, hdeclared⟩ := harises.of_kept (declared_kept ctx)
    refine ⟨hfits.depth, fun ctx' hschema hdepth => ?_⟩
    rw [← hschema] at hdeclared
    refine ⟨Context.rebuildValues_outline harises.coherent hfits.inShape hdeclared hdepth, ?_⟩
    intro pool held hreached
    have hanswer : ctx'.answer (.rebuild vs.filter.outline) = .ok [vs.filter] :=
      bind_eq_ok.2 ⟨_, Context.rebuild_outline hfits.inShape hdeclared hdepth, rfl⟩
    obtain ⟨i, pool', hrun, hi, hreached'⟩ :=
      hreached.serve_one (q := .rebuild vs.filter.outline) (by simp [Query.arguments]) hanswer
    refine ⟨i, pool', hrun, hi, hreached'.sound.2 i (by simp), ?_⟩
    intro k hk hkf
    exact hreached'.eq_of_filter_eq (by simp) (by simp [hk]) (hi.trans hkf.symm)
  case rebuilt =>
    intro vs h
    obtain ⟨hf, hc, hfill⟩ := Context.of_rebuildValues h
    refine ⟨hf, hc.bound, hc.leaves_eq, hc.count_none, fun place w => hc.values_fillFrom hfill, ?_⟩
    intro place l w hl hw
    obtain ⟨kind, hkind, hfixed⟩ := hc.coerced hl hw
    exact Chain.coerce_of_fixed hkind hfixed

/-! ### A hole that comes back -/

namespace ValueSet.Sample

open Pool.Sample

/-- A hole and a null come back in the least context that allows the filter; the list may not go
on behind the slots, not even with blanks, and parameters must be numbered. -/
theorem value_sets_come_back_hole :
    Arises context hole ∧ hole.values = [none, some .null] ∧ hole.blank = 1 ∧
      shallow.rebuildValues hole.outline = .ok hole ∧
      context.rebuildValues ⟨twice.outline, [none, none, none]⟩ =
        .error (.binding (.tooManyValues 2)) ∧
      ∃ l ∈ Pool.Sample.filter.leaves, l.operand = .unbound ∧
        context.rebuildValues ⟨Pool.Sample.filter.outline, []⟩ =
          .error (.binding (.unbound l.render)) := by
  obtain ⟨hback, hany⟩ := Context.value_sets_come_back context
  have hdepth : hole.filter.depth ≤ shallow.config.maxDepth := by
    decide +kernel
  have hrestored := ((hback hole arises_hole).2 shallow rfl hdepth).1
  have hoverfull :=
    ((hany ⟨twice.outline, [none, none, none]⟩).2.2.2 twice (by decide +kernel)).2.1
  have hunbound :=
    ((hany ⟨Pool.Sample.filter.outline, []⟩).2.2.2 Pool.Sample.filter (by decide +kernel)).1
  exact ⟨arises_hole, rfl, rfl, hrestored, hoverfull (by decide +kernel) (by decide +kernel),
    hunbound (by decide +kernel)⟩

end ValueSet.Sample

end RowFilter
