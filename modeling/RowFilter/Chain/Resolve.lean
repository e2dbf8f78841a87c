import RowFilter.Chain.Basic
import RowFilter.Error

/-!
# Resolving names to chains

A chain is written as a list of segments, each a property name with or without the mark of an
outer join. Resolving walks from an entity along the names and refuses the first segment that
does not fit: every segment but the last must be a to-one relation, the mark may stand on
relations only, and what the last may be depends on the use of the chain.
-/

namespace RowFilter

/-- A hop as it is written. -/
structure Segment where
  name : String
  outer : Bool
  /-- The bytes of the name. -/
  span : Span
deriving DecidableEq, Repr

/-- What a chain is for. -/
inductive ChainUse where
  /-- To be compared: it ends in a scalar that is not marked as outer. -/
  | comparison
  /-- To be tested for rows: it ends in a to-many relation. -/
  | existence
  /-- To stand on its own: it ends in any property. -/
  | standalone
deriving DecidableEq, Repr

namespace Segment

/-- What keeps the segment from being a join over `p`. -/
def joinFlaw? (s : Segment) (p : Property) : Option Flaw :=
  if s.outer && !p.kind.isRelation then some (.outerScalar s.name)
  else
    match p.kind.cardinality? with
    | some .toOne => none
    | some .toMany => some (.manyTraversed s.name)
    | none => some (.scalarTraversed s.name)

/-- What keeps the segment from being the final hop over `p` of a chain for this use. -/
def finalFlaw? (s : Segment) (p : Property) (use : ChainUse) : Option Flaw :=
  if s.outer && use = .comparison then some (.outerCompared s.name)
  else if s.outer && !p.kind.isRelation then some (.outerScalar s.name)
  else
    match use, p.kind.cardinality? with
    | .standalone, _ => none
    | .comparison, none => none
    | .comparison, some .toMany => some (.manyCompared s.name)
    | .comparison, some .toOne => some (.oneCompared s.name)
    | .existence, some .toMany => none
    | .existence, some .toOne => some (.oneTested s.name)
    | .existence, none => some (.scalarTested s.name)

end Segment

/-- A chain and, if its final hop is a relation, the entity it leads to. -/
structure Resolved where
  chain : Chain
  target : Option Entity
deriving DecidableEq

namespace Schema

/-- The property that a segment names, unless `flaw?` finds it unfit. -/
def propertyAt (e : Entity) (s : Segment) (text : String) (flaw? : Property → Option Flaw) :
    Except FilterError Property :=
  match e.property? s.name with
  | none => .error (.malformed (.unknownProperty e.name s.name) s.span text)
  | some p =>
    match flaw? p with
    | some flaw => .error (.malformed flaw s.span text)
    | none => .ok p

/-- The entity that a property leads to, if it is a relation. -/
def follow (schema : Schema) (p : Property) : Except FilterError (Option Entity) :=
  match p.kind.target? with
  | none => .ok none
  | some target =>
    match schema.entity target with
    | .ok e => .ok (some e)
    | .error e => .error e

/-- Walks on from the entity `e`, with the joins walked so far in reverse order. -/
def resolveFrom (schema : Schema) (use : ChainUse) (text : String) :
    (e : Entity) → (joins : List Hop) → List Segment → Except FilterError Resolved
  | _, _, [] => .error (.malformed .noProperty .zero text)
  | e, joins, [s] => do
    let p ← propertyAt e s text (s.finalFlaw? · use)
    let target ← schema.follow p
    return ⟨⟨joins.reverse, ⟨p, s.outer⟩⟩, target⟩
  | e, joins, s :: s' :: rest => do
    let p ← propertyAt e s text s.joinFlaw?
    let next ← schema.follow p
    schema.resolveFrom use text (next.getD e) (⟨p, s.outer⟩ :: joins) (s' :: rest)

/-- The chain that the segments name, starting from the entity `e`; `text` is what errors
quote. -/
def resolve (schema : Schema) (e : Entity) (segments : List Segment) (use : ChainUse)
    (text : String) : Except FilterError Resolved :=
  schema.resolveFrom use text e [] segments

end Schema

end RowFilter
