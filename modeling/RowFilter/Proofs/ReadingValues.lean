import RowFilter.Proofs.Supplying

/-!
# Reading values back

Values can be read for any filter, whatever it has to do with the filter of the value set. Its
parameters are looked up from left to right. The first one without a slot ends the reading, also
where parameters in front of it have slots without values: these are only counted, and the count is
the error of a reading that came to the end. What is counted are the places in the filter, so a
parameter that stands in two places counts twice, although there is one slot for both.
-/

namespace RowFilter.ValueSet

variable {ctx : Context} {vs : ValueSet} {f : Filter} {l m : Leaf} {e : BindingError}

/-- There is no slot for the parameter, for it has no number or is not one of the filter's own;
with the error about it. -/
inductive Stray (vs : ValueSet) (l : Leaf) : BindingError → Prop where
  | unbound (h : l.operand = .unbound) : Stray vs l (.unbound l.render)
  | unknown {id : UInt32} (h : l.operand = .bound id) (hl : l ∉ vs.leaves) :
    Stray vs l (.unknownParameter l.render)

/-- A parameter without a slot has an error about it. -/
theorem exists_stray (hparam : l.operand.isParameter = true) (hl : l ∉ vs.leaves) :
    ∃ e, vs.Stray l e := by
  cases hoperand : l.operand with
  | unbound => exact ⟨_, .unbound hoperand⟩
  | bound id => exact ⟨_, .unknown hoperand hl⟩
  | constant v =>
    rw [hoperand] at hparam
    cases hparam

/-! ## Slots and values -/

theorem slot?_eq_none (hl : l ∉ vs.leaves) : vs.slot? l = none := by
  unfold slot?
  rw [List.find?_eq_none]
  intro s hs heq
  apply hl
  rw [← of_decide_eq_true heq]
  exact List.mem_map_of_mem hs

namespace Coherent

/-- There is one slot for a parameter, so what is in it is the value of the parameter. -/
theorem valueOf?_of_mem (h : vs.Coherent) {s : Slot} (hs : s ∈ vs.slots) :
    vs.valueOf? s.leaf = s.value := by
  obtain ⟨t, ht⟩ := exists_slot? (List.mem_map_of_mem (f := Slot.leaf) hs)
  have hleaf : t.leaf = s.leaf := by
    have hfound := List.find?_some ht
    exact of_decide_eq_true hfound
  have hsame : t = s :=
    List.inj_on_of_nodup_map h.nodup_leaves (List.mem_of_find?_eq_some ht) hs hleaf
  rw [valueOf?, ht, hsame]
  rfl

/-- As no comparison has two slots, the value found for it is the one in its slot. -/
theorem mem_slots_iff (h : vs.Coherent) (hl : l ∈ vs.leaves) {value : Option Value} :
    ⟨l, value⟩ ∈ vs.slots ↔ vs.valueOf? l = value := by
  constructor
  · exact fun hs => h.valueOf?_of_mem hs
  · intro hvalue
    obtain ⟨s, hs, rfl⟩ := List.mem_map.1 hl
    rw [h.valueOf?_of_mem hs] at hvalue
    rw [← hvalue]
    exact hs

/-- A comparison is blank just if no value is found for it. -/
theorem mem_blanks_iff (h : vs.Coherent) (hl : l ∈ vs.leaves) :
    l ∈ vs.blanks ↔ vs.valueOf? l = none := by
  rw [← h.mem_slots_iff hl]
  unfold blanks
  constructor
  · intro hmem
    obtain ⟨s, hs, rfl⟩ := List.mem_map.1 hmem
    obtain ⟨hs, hnone⟩ := List.mem_filter.1 hs
    rw [← Option.isNone_iff_eq_none.1 hnone]
    exact hs
  · intro hs
    exact List.mem_map.2 ⟨_, List.mem_filter.2 ⟨hs, rfl⟩, rfl⟩

end Coherent

theorem mem_leaves_of_mem_slots {value : Option Value} (hs : ⟨l, value⟩ ∈ vs.slots) :
    l ∈ vs.leaves :=
  List.mem_map.2 ⟨_, hs, rfl⟩

/-! ## Reading from left to right -/

/-- Constants are passed over. -/
theorem readFrom_parameters (vs : ValueSet) (ls : List Leaf) (read : List Value) (missing : Nat) :
    vs.readFrom read missing (ls.filter fun l => l.operand.isParameter) =
      vs.readFrom read missing ls := by
  induction ls generalizing read missing with
  | nil => rfl
  | cons l ls ih =>
    cases hoperand : l.operand with
    | constant v =>
      rw [List.filter_cons_of_neg (by simp [hoperand, Operand.isParameter]), ih]
      simp only [readFrom, hoperand]
    | unbound =>
      rw [List.filter_cons_of_pos (by simp [hoperand, Operand.isParameter])]
      simp only [readFrom, hoperand]
    | bound id =>
      rw [List.filter_cons_of_pos (by simp [hoperand, Operand.isParameter])]
      simp only [readFrom, hoperand, ih]

/-- Values are read for the parameters only, one after the other. -/
theorem valuesFor_eq (vs : ValueSet) (f : Filter) :
    vs.valuesFor f = vs.readFrom [] 0 f.parameters :=
  (vs.readFrom_parameters f.leaves [] 0).symm

/-- Behind parameters with slots, one without a slot ends the reading, whatever was read and
counted by then. -/
theorem Coherent.readFrom_of_stray (h : vs.Coherent) {before behind : List Leaf}
    (hbefore : ∀ m ∈ before, m ∈ vs.leaves) (hstray : vs.Stray l e) (read : List Value)
    (missing : Nat) :
    vs.readFrom read missing (before ++ l :: behind) = .error (.binding e) := by
  induction before generalizing read missing with
  | nil =>
    cases hstray with
    | unbound hoperand => simp only [List.nil_append, readFrom, hoperand]
    | unknown hoperand hl =>
      simp only [List.nil_append, readFrom, hoperand, slot?_eq_none hl]
  | cons m before ih =>
    have hrest : ∀ k ∈ before, k ∈ vs.leaves := fun k hk => hbefore k (List.mem_cons_of_mem m hk)
    have hm : m ∈ vs.leaves := hbefore m List.mem_cons_self
    obtain ⟨-, id, hoperand⟩ := h.mem_leaves.1 hm
    obtain ⟨⟨leaf, value⟩, hs⟩ := exists_slot? hm
    rw [List.cons_append]
    cases value with
    | none => simp only [readFrom, hoperand, hs, ih hrest]
    | some v => simp only [readFrom, hoperand, hs, ih hrest]

/-- The number of places in the filter with a parameter whose slot has no value. -/
def blankPlaces (vs : ValueSet) (f : Filter) : Nat :=
  f.parameters.countP fun l => l ∈ vs.blanks

theorem parameters_isParameter : ∀ l ∈ f.parameters, l.operand.isParameter = true :=
  fun _ hl => (List.mem_filter.1 hl).2

theorem filter_parameters (f : Filter) :
    (f.parameters.filter fun l => l.operand.isParameter) = f.parameters :=
  List.filter_eq_self.2 parameters_isParameter

/-- What is missing is counted at each place, and not for each slot. -/
theorem Coherent.missingFor_eq (h : vs.Coherent) (hknown : ∀ l ∈ f.parameters, l ∈ vs.leaves) :
    vs.missingFor f.parameters = vs.blankPlaces f := by
  unfold missingFor blankPlaces
  rw [filter_parameters]
  refine List.countP_congr fun l hl => ?_
  rw [Option.isNone_iff_eq_none, ← h.mem_blanks_iff (hknown l hl), decide_eq_true_iff]

/-- Where all parameters have slots, they are read, or the places without a value are counted. -/
theorem Coherent.valuesFor_of_known (h : vs.Coherent) (hknown : ∀ l ∈ f.parameters, l ∈ vs.leaves) :
    vs.valuesFor f = if vs.blankPlaces f = 0 then .ok (f.parameters.filterMap vs.valueOf?)
      else .error (.binding (.blankSlots (vs.blankPlaces f))) := by
  have hread := h.readFrom_eq (fun l hl _ => hknown l hl) [] 0
  rw [Nat.zero_add, List.reverse_nil, List.nil_append, h.missingFor_eq hknown, suppliedTo,
    filter_parameters] at hread
  rw [valuesFor_eq, hread]

/-! ## What is read for a filter -/

/-- All parameters have values. -/
def Fills (vs : ValueSet) (f : Filter) : Prop :=
  ∀ l ∈ f.parameters, ∃ v, ⟨l, some v⟩ ∈ vs.slots

/-- The first parameter that has no slot, with the error about it. -/
def StraysFirst (vs : ValueSet) (f : Filter) (e : BindingError) : Prop :=
  ∃ before l behind, f.parameters = before ++ l :: behind ∧ (∀ m ∈ before, m ∈ vs.leaves) ∧
    vs.Stray l e

/-- What reading the values for the filter gives. -/
structure ReadsFor (vs : ValueSet) (f : Filter) : Prop where
  succeeds_iff : (∃ values, vs.valuesFor f = .ok values) ↔ vs.Fills f
  /-- There is one value for each place, in the order of the places. -/
  in_places : ∀ values, vs.valuesFor f = .ok values →
    List.Forall₂ (fun l v => ⟨l, some v⟩ ∈ vs.slots) f.parameters values
  /-- The error is about the first parameter without a slot, if there is one, or else it says in
  how many places there is no value. -/
  fails_iff : ∀ error, vs.valuesFor f = .error error ↔
    (∃ e, vs.StraysFirst f e ∧ error = .binding e) ∨
      (∀ l ∈ f.parameters, l ∈ vs.leaves) ∧ vs.blankPlaces f ≠ 0 ∧
        error = .binding (.blankSlots (vs.blankPlaces f))

/-- A filter that is filled has slots for all its parameters. -/
theorem Fills.known (h : vs.Fills f) : ∀ l ∈ f.parameters, l ∈ vs.leaves := by
  intro l hl
  obtain ⟨v, hv⟩ := h l hl
  exact mem_leaves_of_mem_slots hv

/-- All parameters have slots, or there is a first one that has none. -/
theorem known_or_straysFirst (vs : ValueSet) (f : Filter) :
    (∀ l ∈ f.parameters, l ∈ vs.leaves) ∨ ∃ e, vs.StraysFirst f e := by
  cases hfind : f.parameters.find? fun l => l ∉ vs.leaves with
  | none =>
    left
    intro l hl
    simpa using List.find?_eq_none.1 hfind l hl
  | some l =>
    right
    obtain ⟨hl, before, behind, hsplit, hbefore⟩ := List.find?_eq_some_iff_append.1 hfind
    have hmem : l ∈ f.parameters := by simp [hsplit]
    obtain ⟨e, hstray⟩ := exists_stray (parameters_isParameter l hmem) (of_decide_eq_true hl)
    exact ⟨e, before, l, behind, hsplit, fun m hm => by simpa using hbefore m hm, hstray⟩

namespace Coherent

/-- Where all parameters have slots, the filter is filled if no place is blank. -/
theorem fills_iff (h : vs.Coherent) (hknown : ∀ l ∈ f.parameters, l ∈ vs.leaves) :
    vs.Fills f ↔ vs.blankPlaces f = 0 := by
  unfold Fills blankPlaces
  rw [List.countP_eq_zero]
  refine forall₂_congr fun l hl => ?_
  rw [decide_eq_true_iff, h.mem_blanks_iff (hknown l hl), ← Ne, Option.ne_none_iff_exists']
  simp only [h.mem_slots_iff (hknown l hl)]

/-- If all is filled, each place gets the value of its slot. -/
theorem valuesFor_of_fills (h : vs.Coherent) (hfills : vs.Fills f) :
    vs.valuesFor f = .ok (f.parameters.filterMap vs.valueOf?) := by
  rw [h.valuesFor_of_known hfills.known, if_pos ((h.fills_iff hfills.known).1 hfills)]

/-- If all parameters have slots and some are blank, their places are counted. -/
theorem valuesFor_of_blank (h : vs.Coherent) (hknown : ∀ l ∈ f.parameters, l ∈ vs.leaves)
    (hblank : vs.blankPlaces f ≠ 0) :
    vs.valuesFor f = .error (.binding (.blankSlots (vs.blankPlaces f))) := by
  rw [h.valuesFor_of_known hknown, if_neg hblank]

/-- A parameter without a slot is reported first, whatever else is blank. -/
theorem valuesFor_of_straysFirst (h : vs.Coherent) (hstray : vs.StraysFirst f e) :
    vs.valuesFor f = .error (.binding e) := by
  obtain ⟨before, l, behind, hsplit, hbefore, hstray⟩ := hstray
  rw [valuesFor_eq, hsplit]
  exact h.readFrom_of_stray hbefore hstray [] 0

/-- One value is read for each parameter, if all have one. -/
theorem forall₂_filterMap (h : vs.Coherent) {ls : List Leaf}
    (hfilled : ∀ l ∈ ls, ∃ v, ⟨l, some v⟩ ∈ vs.slots) :
    List.Forall₂ (fun l v => ⟨l, some v⟩ ∈ vs.slots) ls (ls.filterMap vs.valueOf?) := by
  induction ls with
  | nil => exact .nil
  | cons l ls ih =>
    obtain ⟨v, hv⟩ := hfilled l List.mem_cons_self
    have hvalue : vs.valueOf? l = some v := h.valueOf?_of_mem hv
    rw [List.filterMap_cons_some hvalue]
    exact .cons hv (ih fun k hk => hfilled k (List.mem_cons_of_mem l hk))

/-- A reading ends in one of three ways: with the values, at the first parameter without a slot, or
behind the last place with the count of those without a value. -/
theorem valuesFor_cases (h : vs.Coherent) (f : Filter) :
    vs.Fills f ∨ (∃ e, vs.StraysFirst f e) ∨
      (∀ l ∈ f.parameters, l ∈ vs.leaves) ∧ vs.blankPlaces f ≠ 0 := by
  rcases vs.known_or_straysFirst f with hknown | hstray
  · by_cases hblank : vs.blankPlaces f = 0
    · exact .inl ((h.fills_iff hknown).2 hblank)
    · exact .inr (.inr ⟨hknown, hblank⟩)
  · exact .inr (.inl hstray)

/-- One of the three is the case for every filter. -/
theorem readsFor (h : vs.Coherent) (f : Filter) : vs.ReadsFor f := by
  have hsucceeds : ∀ values, vs.valuesFor f = .ok values → vs.Fills f := by
    intro values hvalues
    rcases h.valuesFor_cases f with hfills | ⟨e, hstray⟩ | ⟨hknown, hblank⟩
    · exact hfills
    · rw [h.valuesFor_of_straysFirst hstray] at hvalues
      cases hvalues
    · rw [h.valuesFor_of_blank hknown hblank] at hvalues
      cases hvalues
  constructor
  · constructor
    · rintro ⟨values, hvalues⟩
      exact hsucceeds values hvalues
    · exact fun hfills => ⟨_, h.valuesFor_of_fills hfills⟩
  · intro values hvalues
    have hfills := hsucceeds values hvalues
    rw [h.valuesFor_of_fills hfills] at hvalues
    rw [← Except.ok.inj hvalues]
    exact h.forall₂_filterMap hfills
  · intro error
    constructor
    · intro herror
      rcases h.valuesFor_cases f with hfills | ⟨e, hstray⟩ | ⟨hknown, hblank⟩
      · rw [h.valuesFor_of_fills hfills] at herror
        cases herror
      · rw [h.valuesFor_of_straysFirst hstray] at herror
        exact .inl ⟨e, hstray, (Except.error.inj herror).symm⟩
      · rw [h.valuesFor_of_blank hknown hblank] at herror
        exact .inr ⟨hknown, hblank, (Except.error.inj herror).symm⟩
    · rintro (⟨e, hstray, rfl⟩ | ⟨hknown, hblank, rfl⟩)
      · exact h.valuesFor_of_straysFirst hstray
      · exact h.valuesFor_of_blank hknown hblank

end Coherent

/-- Whatever was supplied and decoded before, and for whatever filter values are read: they are read
exactly if all its parameters have values, one for each place from left to right. Otherwise the
error is about the first parameter without a number or without a slot, also where values are missing
in front of it; and only where there is none, that values are missing. -/
theorem Arises.reads_for (h : Arises ctx vs) (f : Filter) : vs.ReadsFor f :=
  h.coherent.readsFor f

namespace Sample

open Pool Pool.Sample

/-- The orders of some total that are of another total. -/
def strayBehindBlank : Filter :=
  .junction "order" .and (.compare numbered) (.compare numberedNext)

/-- The amount that the hole has a value for, said twice. -/
def amountTwice : Filter :=
  .junction "order" .or someAmount someAmount

/-- Read from the set with a hole: the parameter that has no slot is the error although one without
a value stands in front of it, and the value of a parameter in two places is read twice. -/
theorem reads_for_hole :
    ∃ pool i, Arises context hole ∧ Reached context pool [i] ∧ i.filter = strayBehindBlank ∧
      hole.valuesFor i.filter = .error (.binding (.unknownParameter numberedNext.render)) ∧
      hole.valuesFor amountTwice = .ok [.null, .null] := by
  obtain ⟨pool, i, hreached, hi⟩ := exists_reached (f := strayBehindBlank) (by decide +kernel)
  refine ⟨pool, i, arises_hole, hreached, hi, ?_, ?_⟩
  · have hstray : hole.Stray numberedNext (.unknownParameter numberedNext.render) :=
      @Stray.unknown hole numberedNext 1 rfl (by decide +kernel)
    rw [hi]
    refine ((Arises.reads_for arises_hole strayBehindBlank).fails_iff _).2 (.inl ⟨_, ?_, rfl⟩)
    exact ⟨[numbered], numberedNext, [], by decide +kernel, by decide +kernel, hstray⟩
  · have hreads := Arises.reads_for arises_hole amountTwice
    have hfills : hole.Fills amountTwice := by
      have hparameters : amountTwice.parameters = [numberedAmount, numberedAmount] := by
        decide +kernel
      intro l hl
      rw [hparameters] at hl
      obtain rfl : l = numberedAmount := by simpa using hl
      exact ⟨.null, by decide +kernel⟩
    obtain ⟨values, hvalues⟩ := hreads.succeeds_iff.2 hfills
    -- the two values are those of the one slot for the amount
    have hplaces := hreads.in_places values hvalues
    rw [hvalues]
    have hslot : ∀ v, ⟨numberedAmount, some v⟩ ∈ hole.slots → v = .null := by
      intro v hv
      simpa [hole, numbered, numberedAmount] using hv
    cases hplaces with
    | cons hfirst hplaces =>
      cases hplaces with
      | cons hsecond hplaces =>
        cases hplaces
        rw [hslot _ hfirst, hslot _ hsecond]

end Sample

/-! ## Reading all values -/

/-- A list without repetitions, all of which are in another list, is met there in at least as many
places as it is long, and in more if something is repeated there. -/
theorem length_le_countP_mem {α : Type} [DecidableEq α] {xs ys : List α} (hxs : xs.Nodup)
    (hsub : ∀ x ∈ xs, x ∈ ys) :
    xs.length ≤ ys.countP (fun y => y ∈ xs) ∧
      (ys.countP (fun y => y ∈ xs) = xs.length ↔ ∀ x ∈ xs, ys.count x = 1) := by
  have hmem : ∀ x, x ∈ ys.filter (fun y => y ∈ xs) ↔ x ∈ xs := by
    intro x
    rw [List.mem_filter, decide_eq_true_iff]
    exact ⟨And.right, fun hx => ⟨hsub x hx, hx⟩⟩
  have hcount : ∀ x ∈ xs, (ys.filter fun y => y ∈ xs).count x = ys.count x :=
    fun x hx => List.count_filter (decide_eq_true hx)
  have hsubperm : xs.Subperm (ys.filter fun y => y ∈ xs) :=
    List.subperm_of_subset hxs fun x hx => (hmem x).2 hx
  rw [List.countP_eq_length_filter]
  refine ⟨hsubperm.length_le, ?_, ?_⟩
  · intro hlength x hx
    have hperm : xs.Perm (ys.filter fun y => y ∈ xs) := hsubperm.perm_of_length_le hlength.le
    rw [← hcount x hx, ← hperm.count_eq]
    exact List.count_eq_one_of_mem hxs hx
  · intro honce
    have hnodup : (ys.filter fun y => y ∈ xs).Nodup := by
      rw [List.nodup_iff_count_eq_one]
      intro x hx
      rw [hcount x ((hmem x).1 hx)]
      exact honce x ((hmem x).1 hx)
    exact ((List.perm_ext_iff_of_nodup hnodup hxs).2 hmem).length_eq

namespace Coherent

theorem known (h : vs.Coherent) : ∀ l ∈ vs.filter.parameters, l ∈ vs.leaves := by
  intro l hl
  rw [h.leaves_eq]
  exact List.mem_eraseDups.2 hl

theorem nodup_blanks (h : vs.Coherent) : vs.blanks.Nodup :=
  h.nodup_leaves.sublist (List.filter_sublist.map Slot.leaf)

/-- A blank slot is that of a parameter of the filter. -/
theorem mem_parameters_of_mem_blanks (h : vs.Coherent) (hl : l ∈ vs.blanks) :
    l ∈ vs.filter.parameters := by
  have hleaf : l ∈ vs.leaves := (List.filter_sublist.map Slot.leaf).subset hl
  rw [h.leaves_eq] at hleaf
  exact List.mem_eraseDups.1 hleaf

/-- There are at least as many blank places as slots, and no more just if no blank parameter is
repeated. -/
theorem blank_le_blankPlaces (h : vs.Coherent) : vs.blank ≤ vs.blankPlaces vs.filter ∧
    (vs.blankPlaces vs.filter = vs.blank ↔
      ∀ l ∈ vs.blanks, vs.filter.parameters.count l = 1) := by
  rw [h.length_blanks]
  exact length_le_countP_mem h.nodup_blanks fun _ hl => h.mem_parameters_of_mem_blanks hl

/-- No place is blank just if all slots are filled. -/
theorem blankPlaces_eq_zero_iff (h : vs.Coherent) :
    vs.blankPlaces vs.filter = 0 ↔ vs.isFull = true := by
  unfold isFull blankPlaces
  rw [beq_iff_eq, h.length_blanks, List.length_eq_zero_iff, List.countP_eq_zero,
    List.eq_nil_iff_forall_not_mem]
  constructor
  · intro hnone l hl
    exact hnone l (h.mem_parameters_of_mem_blanks hl) (decide_eq_true hl)
  · intro hnone l _ hl
    exact hnone l (of_decide_eq_true hl)

end Coherent

/-- All values can be read exactly if the set is full. Otherwise the error counts the places in the
filter where a value is missing. There are no fewer of these than slots without a value, and no more
exactly if each parameter that waits for one stands in one place. -/
theorem Arises.counts_blank_places (h : Arises ctx vs) :
    ((∃ values, vs.allValues = .ok values) ↔ vs.isFull = true) ∧
      (vs.isFull = false →
        vs.allValues = .error (.binding (.blankSlots (vs.blankPlaces vs.filter)))) ∧
      vs.blank = vs.blanks.length ∧ vs.blanks.Nodup ∧ vs.blank ≤ vs.blankPlaces vs.filter ∧
      (vs.blankPlaces vs.filter = vs.blank ↔
        ∀ l ∈ vs.blanks, vs.filter.parameters.count l = 1) := by
  have hc := h.coherent
  obtain ⟨hle, hsame⟩ := hc.blank_le_blankPlaces
  refine ⟨?_, ?_, hc.length_blanks, hc.nodup_blanks, hle, hsame⟩
  · rw [← hc.blankPlaces_eq_zero_iff, ← hc.fills_iff hc.known]
    exact (hc.readsFor vs.filter).succeeds_iff
  · intro hfull
    refine hc.valuesFor_of_blank hc.known fun hzero => ?_
    rw [hc.blankPlaces_eq_zero_iff, hfull] at hzero
    cases hzero

namespace Sample

open Pool Pool.Sample

/-- The set with a hole has no value for one parameter, which stands in two places. -/
theorem counts_blank_places_hole :
    Arises context hole ∧ hole.isFull = false ∧ hole.blank = 1 ∧
      hole.blankPlaces hole.filter = 2 ∧ hole.allValues = .error (.binding (.blankSlots 2)) := by
  have hfull : hole.isFull = false := rfl
  have hplaces : hole.blankPlaces hole.filter = 2 := by
    decide +kernel
  obtain ⟨-, hread, -⟩ := Arises.counts_blank_places arises_hole
  rw [hplaces] at hread
  exact ⟨arises_hole, hfull, rfl, hplaces, hread hfull⟩

/-- The comparison of the total with one parameter, said twice. -/
def totalTwice : Filter :=
  .junction "order" .and (.compare numbered) (.compare numbered)

/-- One parameter waits for a value, and the error says that two do. -/
theorem blankSlots_exceeds_blank :
    ∃ pool i, Reached context pool [i] ∧ i.filter = totalTwice ∧
      Arises context (ofFilter i.filter) ∧ (ofFilter i.filter).blank = 1 ∧
      (ofFilter i.filter).blanks = [numbered] ∧
      (ofFilter i.filter).allValues = .error (.binding (.blankSlots 2)) ∧
      (ofFilter i.filter).allValues ≠
        .error (.binding (.blankSlots (ofFilter i.filter).blank)) := by
  obtain ⟨pool, i, hreached, hi⟩ := exists_reached (f := totalTwice) (by decide +kernel)
  have harises : Arises context (ofFilter i.filter) :=
    .initial hreached (List.mem_singleton_self i)
  have hread : (ofFilter totalTwice).allValues = .error (.binding (.blankSlots 2)) := by
    decide +kernel
  refine ⟨pool, i, hreached, hi, harises, ?_⟩
  rw [hi, hread]
  exact ⟨by decide +kernel, by decide +kernel, rfl, by decide +kernel⟩

end Sample

end RowFilter.ValueSet
