import RowFilter.Filter.Outline
import RowFilter.Wire.Value

/-!
# Outlines on the wire

An outline is a variant named for the kind of node, with a record of its parts; a junction holds
the array of its operands. Filters and value sets travel as their outlines.
-/

namespace RowFilter

open RowFilter.Wire

/-! ## Writing -/

/-- The names of the operators, in the order of their positions. -/
def RelOp.variantNames : List String :=
  ["Eq", "Ne", "Lt", "Le", "Gt", "Ge"]

/-- The name of an operator. -/
def RelOp.variantName : RelOp → String
  | .eq => "Eq"
  | .ne => "Ne"
  | .lt => "Lt"
  | .le => "Le"
  | .gt => "Gt"
  | .ge => "Ge"

/-- The operand as an item. -/
def Operand.toItem : Operand → Item
  | .unbound => .text "Unbound"
  | .bound id => .variant "Bound" (.unsigned id.toUInt64)
  | .constant v => .variant "Constant" v.toItem

/-- A hop by name as an item. -/
def HopName.toItem (h : HopName) : Item :=
  .record [("property", .text h.property), ("outer", .bool h.outer)]

/-- The name of a junction. -/
def Junction.variantName : Junction → String
  | .and => "And"
  | .or => "Or"

namespace Outline

/-- The outline as an item. -/
def toItem : Outline → Item
  | .opened entity => .variant "Open" (.record [("entity", .text entity)])
  | .closed entity => .variant "Closed" (.record [("entity", .text entity)])
  | .compare entity chain op operand =>
    .variant "Property" (.record [("entity", .text entity),
      ("chain", .array (chain.map HopName.toItem)), ("op", .text op.variantName),
      ("operand", operand.toItem)])
  | .existence entity chain negated sub =>
    .variant "Exists" (.record [("entity", .text entity),
      ("chain", .array (chain.map HopName.toItem)), ("negated", .bool negated),
      ("sub", sub.toItem)])
  | .junction kind operands => .variant kind.variantName (.array (operands.map toItem))

end Outline

/-- The outline of a value set as an item. -/
def ValuesOutline.toItem (o : ValuesOutline) : Item :=
  .record [("filter", o.filter.toItem), ("values", .array (o.values.map Value.optionToItem))]

/-! ## Reading -/

/-- The operator that an item names. -/
def RelOp.ofItem? (item : Item) : Option RelOp :=
  (item.toUnitVariant? variantNames).bind fun i => RelOp.all[i]?

/-- The operand that an item stands for. -/
def Operand.ofItem? (item : Item) : Option Operand :=
  match item.toVariant? ["Unbound", "Bound", "Constant"] with
  | some (0, none) => some .unbound
  | some (0, some content) => if content.isUnit then some .unbound else none
  | some (1, some content) =>
    content.toInt?.bind fun n =>
      if 0 ≤ n ∧ n < UInt32.size then some (.bound (UInt32.ofNat n.toNat)) else none
  | some (2, some content) => (Value.ofItem? content).map .constant
  | _ => none

/-- The hop that an item names. -/
def HopName.ofItem? (item : Item) : Option HopName :=
  match item.toFields? ["property", "outer"] with
  | some [property, outer] => do return ⟨← property.toText?, ← outer.toBool?⟩
  | _ => none

/-- The hops that an item lists. -/
def HopName.listOfItem? (item : Item) : Option (List HopName) := do
  (← item.toArray?).mapM ofItem?

namespace Outline

/-- The names of the nodes, in the order of their positions. -/
def variantNames : List String :=
  ["Open", "Closed", "Property", "Exists", "And", "Or"]

/-- The entity of an open or closed filter. -/
def entityOf? (content : Item) : Option String :=
  match content.toFields? ["entity"] with
  | some [entity] => entity.toText?
  | _ => none

/-- The comparison that an item describes. -/
def compareOf? (content : Item) : Option Outline :=
  match content.toFields? ["entity", "chain", "op", "operand"] with
  | some [entity, chain, op, operand] => do
    return .compare (← entity.toText?) (← HopName.listOfItem? chain) (← RelOp.ofItem? op)
      (← Operand.ofItem? operand)
  | _ => none

/-- The existence test that an item describes, given the reader of outlines within it. -/
def existenceOf? (inner : Item → Option Outline) (content : Item) : Option Outline :=
  match content.toFields? ["entity", "chain", "negated", "sub"] with
  | some [entity, chain, negated, sub] => do
    return .existence (← entity.toText?) (← HopName.listOfItem? chain) (← negated.toBool?)
      (← inner sub)
  | _ => none

/-- The junction whose operands an item lists, given the reader of outlines within it. -/
def junctionOf? (inner : Item → Option Outline) (kind : Junction) (content : Item) :
    Option Outline := do
  return .junction kind (← (← content.toArray?).mapM inner)

/-- The outline that an item describes, at most `levels` outlines deep. -/
def ofItemWithin? : (levels : Nat) → Item → Option Outline
  | 0, _ => none
  | levels + 1, item =>
    match item.toVariant? variantNames with
    | some (0, some content) => (entityOf? content).map .opened
    | some (1, some content) => (entityOf? content).map .closed
    | some (2, some content) => compareOf? content
    | some (3, some content) => existenceOf? (ofItemWithin? levels) content
    | some (4, some content) => junctionOf? (ofItemWithin? levels) .and content
    | some (5, some content) => junctionOf? (ofItemWithin? levels) .or content
    | _ => none

/-- The outline that an item describes. Every outline in another is at least one level further
into the item, and items nest no deeper than the limit. -/
def ofItem? (item : Item) : Option Outline :=
  ofItemWithin? nestingLimit item

end Outline

/-- The outline of a value set that an item describes. -/
def ValuesOutline.ofItem? (item : Item) : Option ValuesOutline :=
  match item.toFields? ["filter", "values"] with
  | some [filter, values] => do
    return ⟨← Outline.ofItem? filter, ← (← values.toArray?).mapM Value.optionOfItem?⟩
  | _ => none

/-! ## Filters and value sets -/

/-- The bytes of a filter. -/
def Filter.encode (f : Filter) : List UInt8 :=
  f.outline.toItem.encode

/-- The bytes of a value set. -/
def ValueSet.encode (vs : ValueSet) : List UInt8 :=
  vs.outline.toItem.encode

namespace Builder

/-- The filter that the bytes encode. The bytes are read completely before any name is looked
up. -/
def decode {m : Type → Type} {φ : Type} [Monad m] [MonadExcept FilterError m]
    (b : Builder m φ) (bytes : List UInt8) : m φ := do
  let o ← MonadExcept.ofExcept (decodeAs Outline.ofItem? bytes)
  b.rebuild o

end Builder

namespace Context

/-- The tree that the bytes encode. -/
def decodeFilter (ctx : Context) : List UInt8 → Except FilterError Filter :=
  ctx.builder.decode

/-- The value set that the bytes encode. -/
def decodeValues (ctx : Context) (bytes : List UInt8) : Except FilterError ValueSet := do
  let o ← decodeAs ValuesOutline.ofItem? bytes
  ctx.rebuildValues o

end Context

end RowFilter
