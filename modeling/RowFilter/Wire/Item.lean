import RowFilter.Number.Binary64

/-!
# Data items

The data model of CBOR, the concise binary object representation, as far as filters and values
need it: integers, byte and text strings, arrays, maps, tags, and the simple values. A map
remembers whether its head is the single byte of a map with one entry, because only that form
is read as a variant with content.
-/

namespace RowFilter.Wire

open RowFilter.Number

/-- A data item. -/
inductive Item where
  | unsigned (n : UInt64)
  /-- The number `-1 - n`. -/
  | negative (n : UInt64)
  | bytes (bytes : List UInt8)
  | text (s : String)
  | array (items : List Item)
  | map (single : Bool) (entries : List (Item × Item))
  | tagged (tag : UInt64) (item : Item)
  | bool (b : Bool)
  | null
  | undefined
  /-- A number in one of the binary formats; none if it is infinite or not a number. -/
  | float (x : Option Binary64)

namespace Item

/-- The item behind its tags, which say nothing here. -/
def untagged : Item → Item
  | tagged _ item => item.untagged
  | item => item

/-- A map with text keys, as records are written. -/
def record (fields : List (String × Item)) : Item :=
  .map (fields.length == 1) (fields.map fun f => (.text f.1, f.2))

/-- A map with one entry, as variants with content are written. -/
def variant (name : String) (content : Item) : Item :=
  .map true [(.text name, content)]

end Item

end RowFilter.Wire
