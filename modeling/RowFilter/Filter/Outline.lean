import RowFilter.Building
import RowFilter.ValueSet

/-!
# Outlines

An outline is a filter reduced to what can travel: names instead of properties, and the operands
of a junction that is grouped to the left as one list. Rebuilding resolves every name against a
schema and goes through the same steps as any other building, so an outline from elsewhere gives
a well-formed filter or an error.
-/

namespace RowFilter

/-- A hop by the name of its property. -/
structure HopName where
  property : String
  outer : Bool
deriving DecidableEq, Repr

/-- The structure of a filter, by names. -/
inductive Outline where
  | opened (entity : String)
  | closed (entity : String)
  | compare (entity : String) (chain : List HopName) (op : RelOp) (operand : Operand)
  | existence (entity : String) (chain : List HopName) (negated : Bool) (sub : Outline)
  /-- The operands of a junction grouped to the left. -/
  | junction (kind : Junction) (operands : List Outline)

/-- A filter's outline with the values of its slots. -/
structure ValuesOutline where
  filter : Outline
  values : List (Option Value)

/-! ## From filters -/

/-- The names of the hops. -/
def Chain.names (c : Chain) : List HopName :=
  c.hops.map fun h => ⟨h.property.name, h.outer⟩

namespace Outline

/-- The outline as the operands of a junction of this kind: those it lists itself, or itself. -/
def operandsOf (kind : Junction) : Outline → List Outline
  | .junction k operands => if k = kind then operands else [.junction k operands]
  | o => [o]

end Outline

/-- The outline of a filter. -/
def Filter.outline : Filter → Outline
  | opened e => .opened e
  | closed e => .closed e
  | compare l => .compare l.entity l.chain.names l.shape.op l.operand
  | existence e c negated sub => .existence e c.names negated sub.outline
  | junction _ kind left right =>
    .junction kind (left.outline.operandsOf kind ++ [right.outline])

/-- The outline of a value set. -/
def ValueSet.outline (vs : ValueSet) : ValuesOutline :=
  ⟨vs.filter.outline, vs.values⟩

/-! ## Back to filters -/

/-- The names as segments of the text in which they stand with dots between them. -/
def HopName.segmentsFrom (offset : Nat) : List HopName → List Segment
  | [] => []
  | h :: rest =>
    let stop := offset + h.property.utf8ByteSize
    ⟨h.property, h.outer, ⟨offset, stop⟩⟩ :: segmentsFrom (stop + 1) rest

/-- The chain of these names. -/
def Schema.chainOf (schema : Schema) (e : Entity) (names : List HopName) (use : ChainUse) :
    Except FilterError Resolved :=
  schema.resolve e (HopName.segmentsFrom 0 names) use
    (".".intercalate (names.map HopName.property))

/-- The operand, with a constant coerced to the type at the end of the chain. -/
def Chain.operand (c : Chain) : Operand → Except FilterError Operand
  | .constant v => do return .constant (← c.coerce v)
  | o => .ok o

namespace Builder

variable {m : Type → Type} {φ : Type} [Monad m] [MonadExcept FilterError m]

mutual

/-- The filter that an outline describes. -/
def rebuild (b : Builder m φ) : Outline → m φ
  | .opened entity => b.opened entity
  | .closed entity => b.closed entity
  | .compare entity chain op operand => do
    let e ← b.entity entity
    let resolved ← MonadExcept.ofExcept (b.schema.chainOf e chain .comparison)
    let operand' ← MonadExcept.ofExcept (resolved.chain.operand operand)
    b.make (.compare ⟨e.name, ⟨resolved.chain, op⟩, operand'⟩)
  | .existence entity chain negated sub => do
    let e ← b.entity entity
    let resolved ← MonadExcept.ofExcept (b.schema.chainOf e chain .existence)
    let sub' ← b.rebuild sub
    b.matchTarget resolved.target sub'
    b.existence e.name resolved.chain negated sub'
  | .junction _ [] => throw (.wire .emptyJunction)
  | .junction kind (first :: rest) => do
    let left ← b.rebuild first
    b.rebuildOnto kind left rest

/-- The junction of `left` with the described operands, one after the other. -/
def rebuildOnto (b : Builder m φ) (kind : Junction) (left : φ) : List Outline → m φ
  | [] => pure left
  | next :: rest => do
    let right ← b.rebuild next
    let joined ← b.combine kind left right
    b.rebuildOnto kind joined rest

end

end Builder

namespace Context

/-- The tree that an outline describes. -/
def rebuild (ctx : Context) : Outline → Except FilterError Filter :=
  ctx.builder.rebuild

/-- The value set that an outline describes; every parameter must be numbered. -/
def rebuildValues (ctx : Context) (o : ValuesOutline) : Except FilterError ValueSet := do
  let f ← ctx.rebuild o.filter
  match f.leaves.find? fun l => l.operand = .unbound with
  | some l => .error (.binding (.unbound l.render))
  | none => ValueSet.ofValues f o.values

end Context

end RowFilter
