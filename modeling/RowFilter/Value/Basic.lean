import RowFilter.Number.Binary64
import RowFilter.Schema.Basic
import RowFilter.Text.Quoted

/-!
# Values

The literals that stand in filters: the constants of comparisons and the values supplied for
parameters. Equality of values is decidable and agrees with equality of what they denote, since
a floating-point value is finite and has a single zero.
-/

namespace RowFilter

open RowFilter.Number

/-- A literal. -/
inductive Value where
  | blob (bytes : List UInt8)
  | bool (b : Bool)
  | float64 (x : Binary64)
  | int (n : Int64)
  | null
  | text (s : String)
  /-- Milliseconds since the epoch. -/
  | timestamp (n : Int64)
  | uint (n : UInt64)
deriving DecidableEq, Hashable, Inhabited

namespace Value

/-- The word for the kind of a value in messages. -/
def label : Value → String
  | .blob _ => "blob"
  | .bool _ => "bool"
  | .float64 _ => "float64"
  | .int _ => "int"
  | .null => "null"
  | .text _ => "text"
  | .timestamp _ => "timestamp"
  | .uint _ => "uint"

/-- The kind of property that holds such values; null is of no kind. -/
def kind? : Value → Option ScalarKind
  | .blob _ => some .blob
  | .bool _ => some .bool
  | .float64 _ => some .float64
  | .int _ => some .int
  | .null => none
  | .text _ => some .text
  | .timestamp _ => some .timestamp
  | .uint _ => some .uint

/-- A value as it is shown in filters: bytes in hexadecimal, numbers in positional decimal
notation, text in quotes. -/
def render : Value → String
  | .blob bytes => "0x" ++ Text.hexBytes bytes
  | .bool b => if b then "true" else "false"
  | .float64 x => x.render
  | .int n => toString n.toInt
  | .null => "null"
  | .text s => Text.quote s
  | .timestamp n => toString n.toInt
  | .uint n => toString n.toNat

end Value

end RowFilter
