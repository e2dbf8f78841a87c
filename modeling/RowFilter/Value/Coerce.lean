import RowFilter.Chain.Basic
import RowFilter.Error

/-!
# Coercion to the type of a property

A value fits a property of its own kind as it is. Signed and unsigned integers fit each other
where their ranges meet, and both fit a floating-point property between `-2 ^ 53` and `2 ^ 53`,
where every integer is a double. Null fits exactly the nullable properties. Nothing else fits,
so a coerced value denotes what the given value denotes. A constant, or a value supplied for a
parameter, is coerced to the type of the property that its chain ends in.
-/

namespace RowFilter

open RowFilter.Number

/-- The bound `2 ^ 53` up to which every integer is a double. -/
def exactIntegerBound : Nat := 0x20000000000000

/-- The double nearest to an integer within the bound. -/
def exactDouble? (n : Int) : Option Binary64 :=
  if n.natAbs ≤ exactIntegerBound then Binary64.nearestInt? n else none

namespace Value

/-- The integer as a signed value, if it is in range. -/
def signed? (n : Int) : Option Value :=
  if Int64.minValue.toInt ≤ n ∧ n ≤ Int64.maxValue.toInt then some (.int (Int64.ofInt n)) else none

/-- The integer as an unsigned value, if it is in range. -/
def unsigned? (n : Int) : Option Value :=
  if 0 ≤ n ∧ n < UInt64.size then some (.uint (UInt64.ofNat n.toNat)) else none

/-- The value as a property of this kind and nullability holds it, if it fits. -/
def coerce? (kind : ScalarKind) (nullable : Bool) : Value → Option Value
  | .null => if nullable then some .null else none
  | .blob bytes => if kind = .blob then some (.blob bytes) else none
  | .bool b => if kind = .bool then some (.bool b) else none
  | .float64 x => if kind = .float64 then some (.float64 x) else none
  | .text s => if kind = .text then some (.text s) else none
  | .timestamp n => if kind = .timestamp then some (.timestamp n) else none
  | .int n =>
    match kind with
    | .int => some (.int n)
    | .uint => unsigned? n.toInt
    | .float64 => (exactDouble? n.toInt).map .float64
    | _ => none
  | .uint n =>
    match kind with
    | .uint => some (.uint n)
    | .int => signed? n.toNat
    | .float64 => (exactDouble? n.toNat).map .float64
    | _ => none

end Value

/-- The value as the final property of the chain holds it. -/
def Chain.coerce (c : Chain) (v : Value) : Except FilterError Value :=
  match c.final.property.kind.scalar? with
  | none => .error (.unsupportedConstant c.render .relation)
  | some kind =>
    match v.coerce? kind c.final.property.nullable with
    | some w => .ok w
    | none => .error (.unsupportedConstant c.render (.kind v kind))

end RowFilter
