import RowFilter.Error
import RowFilter.Wire.Encode
import RowFilter.Wire.Record

/-!
# Values on the wire

A value is a variant named for its kind, null a name without content. Bytes travel as an array
of integers. Payloads beyond a size are not looked at.
-/

namespace RowFilter

open RowFilter.Number RowFilter.Wire

namespace Wire

/-- The greatest number of bytes of a payload. -/
def payloadLimit : Nat := 0x100000

/-- The item that a payload encodes, read as something. -/
def decodeAs {α : Type} (ofItem? : Item → Option α) (bytes : List UInt8) :
    Except FilterError α :=
  if payloadLimit < bytes.length then .error (.wire .oversized)
  else
    match (Item.decode? bytes).bind ofItem? with
    | some a => .ok a
    | none => .error (.wire .unreadable)

/-- An integer as an item. -/
def Item.ofInt (n : Int) : Item :=
  if 0 ≤ n then .unsigned (UInt64.ofNat n.toNat) else .negative (UInt64.ofNat (-1 - n).toNat)

/-- The integer that fits sixty-four bits with its sign. -/
def Item.toInt64? (item : Item) : Option Int64 :=
  item.toInt?.bind fun n => if n ≤ Int64.maxValue.toInt then some (Int64.ofInt n) else none

/-- The integer that fits sixty-four bits without a sign. -/
def Item.toUInt64? (item : Item) : Option UInt64 :=
  item.toInt?.bind fun n => if 0 ≤ n then some (UInt64.ofNat n.toNat) else none

/-- The integer that fits a byte. -/
def Item.toByte? (item : Item) : Option UInt8 :=
  item.toInt?.bind fun n => if 0 ≤ n ∧ n < UInt8.size then some (UInt8.ofNat n.toNat) else none

/-- The finite number; an integer is rounded to the nearest one. -/
def Item.toBinary64? (item : Item) : Option Binary64 :=
  match item.untagged with
  | .float x => x
  | other => other.toInt?.bind Binary64.nearestInt?

end Wire

namespace Value

/-- The names of the kinds of values, in the order of their positions. -/
def variantNames : List String :=
  ["Blob", "Bool", "Float64", "Int", "Null", "Text", "Timestamp", "Uint"]

/-- A value as an item. -/
def toItem : Value → Item
  | .blob bytes => .variant "Blob" (.array (bytes.map fun b => .unsigned b.toUInt64))
  | .bool b => .variant "Bool" (.bool b)
  | .float64 x => .variant "Float64" (.float (some x))
  | .int n => .variant "Int" (.ofInt n.toInt)
  | .null => .text "Null"
  | .text s => .variant "Text" (.text s)
  | .timestamp n => .variant "Timestamp" (.ofInt n.toInt)
  | .uint n => .variant "Uint" (.unsigned n)

/-- The value of the kind at that position with that content. -/
def ofContent? (position : Nat) (content : Item) : Option Value :=
  match position with
  | 0 => do return .blob (← (← content.toArray?).mapM Item.toByte?)
  | 1 => content.toBool?.map .bool
  | 2 => content.toBinary64?.map .float64
  | 3 => content.toInt64?.map .int
  | 4 => if content.isUnit then some .null else none
  | 5 => content.toText?.map .text
  | 6 => content.toInt64?.map .timestamp
  | 7 => content.toUInt64?.map .uint
  | _ => none

/-- The value that an item stands for. -/
def ofItem? (item : Item) : Option Value :=
  match item.toVariant? variantNames with
  | some (position, some content) => ofContent? position content
  | some (4, none) => some .null
  | _ => none

/-- A value that may be missing, as an item. -/
def optionToItem : Option Value → Item
  | none => .null
  | some v => v.toItem

/-- A value that may be missing. -/
def optionOfItem? : Item → Option (Option Value)
  | .null => some none
  | item => (ofItem? item).map some

/-- Values as an item. -/
def listToItem (values : List Value) : Item :=
  .array (values.map toItem)

/-- The values that an item stands for. -/
def listOfItem? (item : Item) : Option (List Value) := do
  (← item.toArray?).mapM ofItem?

end Value

end RowFilter
