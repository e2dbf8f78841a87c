import RowFilter.Schema.Basic

/-!
# Checking a schema

A list of declared entities becomes a schema if it passes two checks. The first goes through the
entities in the order of declaration and refuses a repeated field name, then a repeated entity
name. The second goes through the entities in the order of their names and refuses a relation to
an entity that was not declared. Main statements: `build` refuses a list exactly with what the
checks find first (`build_eq_error_iff`), and gives the schema that holds the entities as declared
wherever there is one (`build_eq_ok_iff`).
-/

namespace RowFilter

namespace Schema

/-- The first name that occurs in `earlier` or before in the list. -/
def repeated? (earlier : List String) : List String → Option String
  | [] => none
  | n :: rest => if n ∈ earlier then some n else repeated? (n :: earlier) rest

/-- No name is found exactly if all are distinct and none is an earlier one. -/
theorem repeated?_eq_none_iff {earlier names : List String} :
    repeated? earlier names = none ↔ names.Nodup ∧ ∀ n ∈ names, n ∉ earlier := by
  induction names generalizing earlier with
  | nil => simp [repeated?]
  | cons n rest ih =>
    by_cases h : n ∈ earlier
    · simp [repeated?, h]
    · simp only [repeated?, if_neg h, ih, List.nodup_cons, List.mem_cons, not_or]
      constructor
      · rintro ⟨hd, hall⟩
        exact ⟨⟨fun hn => (hall n hn).1 rfl, hd⟩, fun m hm => by
          rcases hm with rfl | hm
          · exact h
          · exact (hall m hm).2⟩
      · rintro ⟨⟨hn, hd⟩, hall⟩
        exact ⟨hd, fun m hm => ⟨fun e => hn (e ▸ hm), hall m (.inr hm)⟩⟩

/-- The first repetition of a field name or of an entity name. -/
def duplicate? (earlier : List String) : List Entity → Option SchemaError
  | [] => none
  | e :: rest =>
    match repeated? [] (e.fields.map Field.name) with
    | some property => some (.duplicateProperty e.name property)
    | none =>
      if e.name ∈ earlier then some (.duplicateEntity e.name)
      else duplicate? (e.name :: earlier) rest

/-- No repetition is found exactly if field names are distinct in each entity and entity names are
distinct, also from earlier ones. -/
theorem duplicate?_eq_none_iff {earlier : List String} {es : List Entity} :
    duplicate? earlier es = none ↔
      (∀ e ∈ es, (e.fields.map Field.name).Nodup) ∧ (es.map Entity.name).Nodup ∧
        ∀ e ∈ es, e.name ∉ earlier := by
  induction es generalizing earlier with
  | nil => simp [duplicate?]
  | cons e rest ih =>
    have hrep := @repeated?_eq_none_iff [] (e.fields.map Field.name)
    cases hr : repeated? [] (e.fields.map Field.name) with
    | some p =>
      simp only [duplicate?, hr]
      constructor
      · intro h
        cases h
      · rintro ⟨hf, -, -⟩
        have := hrep.2 ⟨hf e (by simp), by simp⟩
        simp [hr] at this
    | none =>
      have hf := (hrep.1 hr).1
      by_cases hm : e.name ∈ earlier
      · simp only [duplicate?, hr, if_pos hm]
        constructor
        · intro h
          cases h
        · rintro ⟨-, -, hall⟩
          exact absurd hm (hall e (by simp))
      · simp only [duplicate?, hr, if_neg hm, ih, List.map_cons, List.nodup_cons, List.mem_cons,
          List.mem_map, not_or]
        constructor
        · rintro ⟨hfs, hd, hall⟩
          refine ⟨?_, ⟨?_, hd⟩, ?_⟩
          · rintro x (rfl | hx)
            · exact hf
            · exact hfs x hx
          · rintro ⟨x, hx, he⟩
            exact (hall x hx).1 he
          · rintro x (rfl | hx)
            · exact hm
            · exact (hall x hx).2
        · rintro ⟨hfs, ⟨hn, hd⟩, hall⟩
          exact ⟨fun x hx => hfs x (.inr hx), hd,
            fun x hx => ⟨fun he => hn ⟨x, hx, he⟩, hall x (.inr hx)⟩⟩

/-- The first relation of `e` that leads out of the declared entities. -/
def danglingField? (declared : List Entity) (e : Entity) : Option SchemaError :=
  e.fields.findSome? fun f =>
    match f.kind.target? with
    | some target =>
      if declared.any (fun e' => e'.name == target) then none
      else some (.unknownRelationTarget e.name f.name target)
    | none => none

/-- The first relation that leads out of the declared entities, the entities taken in the order
of their names. -/
def dangling? (declared : List Entity) : Option SchemaError :=
  (declared.mergeSort fun a b => decide (a.name ≤ b.name)).findSome? (danglingField? declared)

/-- No relation is found exactly if each leads to a declared entity. -/
theorem dangling?_eq_none_iff {declared : List Entity} :
    dangling? declared = none ↔ ∀ e ∈ declared, ∀ f ∈ e.fields, ∀ target,
      f.kind.target? = some target → ∃ e' ∈ declared, e'.name = target := by
  have hfield : ∀ (e : Entity) (f : Field),
      (match f.kind.target? with
        | some target =>
          if declared.any (fun e' => e'.name == target) then none
          else some (SchemaError.unknownRelationTarget e.name f.name target)
        | none => none) = none ↔
        ∀ target, f.kind.target? = some target → ∃ e' ∈ declared, e'.name = target := by
    intro e f
    cases f.kind.target? with
    | none => simp
    | some target => simp
  simp only [dangling?, danglingField?, List.findSome?_eq_none_iff, List.mem_mergeSort, hfield]

/-- The schema of the declared entities, or the first thing wrong with them. -/
def build (declared : List Entity) : Except SchemaError Schema :=
  match hd : duplicate? [] declared with
  | some e => .error e
  | none =>
    match ht : dangling? declared with
    | some e => .error e
    | none =>
      have hd' := duplicate?_eq_none_iff.1 hd
      .ok ⟨declared, hd'.2.1, hd'.1, dangling?_eq_none_iff.1 ht⟩

/-- A list is refused exactly with what the first check finds in it, or else the second. -/
theorem build_eq_error_iff {declared : List Entity} {err : SchemaError} :
    build declared = .error err ↔ duplicate? [] declared = some err ∨
      duplicate? [] declared = none ∧ dangling? declared = some err := by
  unfold build
  split
  · next hd => simp [hd]
  · next hd =>
    split
    · next ht => simp [hd, ht]
    · next ht => simp [hd, ht]

/-- A schema holds the entities it was built from. -/
theorem build_entities {declared : List Entity} {s : Schema} (h : build declared = .ok s) :
    s.entities = declared := by
  unfold build at h
  split at h
  · cases h
  · split at h
    · cases h
    · cases h
      rfl

/-- A list is accepted exactly if some schema holds these entities, and then gives this schema. -/
theorem build_eq_ok_iff {declared : List Entity} {s : Schema} :
    build declared = .ok s ↔ s.entities = declared := by
  refine ⟨build_entities, ?_⟩
  rintro rfl
  -- what a schema promises of its entities is what the checks look for
  have hd : duplicate? [] s.entities = none :=
    duplicate?_eq_none_iff.2 ⟨s.nodup_fields, s.nodup_names, by simp⟩
  have ht : dangling? s.entities = none := dangling?_eq_none_iff.2 s.targets_registered
  cases hbuild : build s.entities with
  | error err => simp [build_eq_error_iff, hd, ht] at hbuild
  | ok s' =>
    have hentities : s'.entities = s.entities := build_entities hbuild
    cases s
    cases s'
    cases hentities
    rfl

end Schema

end RowFilter
