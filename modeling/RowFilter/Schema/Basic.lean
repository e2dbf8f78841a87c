/-!
# Entities and their properties

An entity has scalar properties, which hold values, and relations, which lead to rows of a
related entity: to at most one row, or to any number of rows. A schema is a set of entities in
which every name is unique and every relation leads to an entity of the schema; both are kept
as proofs, so following a relation always arrives.
-/

namespace RowFilter

/-- What a scalar property holds. -/
inductive ScalarKind where
  | blob
  | bool
  | float64
  | int
  | text
  | timestamp
  | uint
deriving DecidableEq, Repr, Hashable, Inhabited

/-- The word for a scalar kind in messages. -/
def ScalarKind.label : ScalarKind → String
  | .blob => "blob"
  | .bool => "bool"
  | .float64 => "float64"
  | .int => "int"
  | .text => "text"
  | .timestamp => "timestamp"
  | .uint => "uint"

/-- All scalar kinds. -/
def ScalarKind.all : List ScalarKind :=
  [.blob, .bool, .float64, .int, .text, .timestamp, .uint]

/-- How many rows a relation leads to. -/
inductive Cardinality where
  /-- At most one row: a comparison may go through it. -/
  | toOne
  /-- Any number of rows: only an existence test ends in it. -/
  | toMany
deriving DecidableEq, Repr, Hashable, Inhabited

/-- A property either holds a value or leads to another entity. -/
inductive PropertyKind where
  | scalar (kind : ScalarKind)
  | relation (target : String) (cardinality : Cardinality)
deriving DecidableEq, Repr, Hashable

namespace PropertyKind

/-- The kind of value held, unless the property is a relation. -/
def scalar? : PropertyKind → Option ScalarKind
  | .scalar kind => some kind
  | .relation _ _ => none

/-- The entity that a relation leads to. -/
def target? : PropertyKind → Option String
  | .scalar _ => none
  | .relation target _ => some target

/-- How many rows a relation leads to. -/
def cardinality? : PropertyKind → Option Cardinality
  | .scalar _ => none
  | .relation _ cardinality => some cardinality

/-- The property leads to another entity. -/
def isRelation : PropertyKind → Bool
  | .scalar _ => false
  | .relation _ _ => true

end PropertyKind

/-- A property as an entity declares it. -/
structure Field where
  name : String
  kind : PropertyKind
  /-- The property may hold the null value. -/
  nullable : Bool
deriving DecidableEq, Repr, Hashable

/-- A property together with the entity that declares it. -/
structure Property extends Field where
  owner : String
deriving DecidableEq, Repr, Hashable

/-- A named list of fields. -/
structure Entity where
  name : String
  fields : List Field
deriving DecidableEq, Repr

namespace Entity

/-- The entity's own property for one of its fields. -/
def own (e : Entity) (f : Field) : Property :=
  { f with owner := e.name }

/-- The properties in the order of declaration. -/
def properties (e : Entity) : List Property :=
  e.fields.map e.own

/-- The property of that name. -/
def property? (e : Entity) (name : String) : Option Property :=
  (e.fields.find? fun f => f.name == name).map e.own

theorem property?_owner {e : Entity} {name : String} {p : Property}
    (h : e.property? name = some p) : p.owner = e.name := by
  obtain ⟨f, -, rfl⟩ := Option.map_eq_some_iff.1 h
  rfl

theorem property?_name {e : Entity} {name : String} {p : Property}
    (h : e.property? name = some p) : p.name = name := by
  obtain ⟨f, hf, rfl⟩ := Option.map_eq_some_iff.1 h
  have := List.find?_some hf
  simpa [own] using this

theorem property?_mem {e : Entity} {name : String} {p : Property}
    (h : e.property? name = some p) : p.toField ∈ e.fields := by
  obtain ⟨f, hf, rfl⟩ := Option.map_eq_some_iff.1 h
  exact List.mem_of_find?_eq_some hf

end Entity

/-- What can be wrong with a schema, or with the entities that two things stand over. -/
inductive SchemaError where
  | unknownEntity (entity : String)
  | duplicateEntity (entity : String)
  | duplicateProperty (entity : String) (property : String)
  | unknownRelationTarget (entity : String) (property : String) (target : String)
  | entityMismatch (left : String) (right : String)
deriving DecidableEq, Repr

/-- The wording of a schema error. -/
def SchemaError.message : SchemaError → String
  | .unknownEntity entity => s!"unknown entity '{entity}'"
  | .duplicateEntity entity => s!"entity '{entity}' is registered more than once"
  | .duplicateProperty entity property =>
    s!"entity '{entity}' declares property '{property}' more than once"
  | .unknownRelationTarget entity property target =>
    s!"relation '{entity}.{property}' targets unregistered entity '{target}'"
  | .entityMismatch left right =>
    s!"cannot combine a filter over '{left}' with a filter over '{right}'"

/-- Entities with unique names and unique field names, closed under their relations. -/
structure Schema where
  entities : List Entity
  nodup_names : (entities.map Entity.name).Nodup
  nodup_fields : ∀ e ∈ entities, (e.fields.map Field.name).Nodup
  targets_registered : ∀ e ∈ entities, ∀ f ∈ e.fields, ∀ target,
    f.kind.target? = some target → ∃ e' ∈ entities, e'.name = target

namespace Schema

/-- The entity of that name. -/
def find? (s : Schema) (name : String) : Option Entity :=
  s.entities.find? fun e => e.name == name

/-- The entity of that name, or the error that there is none. -/
def entity (s : Schema) (name : String) : Except SchemaError Entity :=
  match s.find? name with
  | some e => .ok e
  | none => .error (.unknownEntity name)

theorem find?_name {s : Schema} {name : String} {e : Entity} (h : s.find? name = some e) :
    e.name = name := by
  have := List.find?_some h
  simpa using this

theorem find?_mem {s : Schema} {name : String} {e : Entity} (h : s.find? name = some e) :
    e ∈ s.entities :=
  List.mem_of_find?_eq_some h

/-- A relation of an entity of the schema leads to an entity of the schema. -/
theorem exists_find?_target {s : Schema} {e : Entity} (he : e ∈ s.entities) {p : Property}
    (hp : p.toField ∈ e.fields) {target : String} (ht : p.kind.target? = some target) :
    ∃ e', s.find? target = some e' := by
  obtain ⟨e', he', hn⟩ := s.targets_registered e he p.toField hp target ht
  have : (s.find? target).isSome := by
    simp only [find?, List.find?_isSome]
    exact ⟨e', he', by simp [hn]⟩
  exact Option.isSome_iff_exists.1 this

end Schema

end RowFilter
