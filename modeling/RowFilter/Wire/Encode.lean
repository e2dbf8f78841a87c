import RowFilter.Wire.Item

/-!
# Items as bytes

Every item begins with a head: three bits for its major type and an argument in as few bytes as
hold it. Strings, arrays and maps are written with their length in the head. A number is written
in the shortest of the three binary formats that holds it exactly.
-/

namespace RowFilter.Wire

open RowFilter.Number

/-- The last `width` bytes of `n`, the most significant first. -/
def bigEndian : (width : Nat) → (n : Nat) → List UInt8
  | 0, _ => []
  | width + 1, n => bigEndian width (n / 256) ++ [UInt8.ofNat (n % 256)]

/-- The head byte with the low five bits `info`. -/
def headByte (major info : Nat) : UInt8 :=
  UInt8.ofNat (major * 32 + info)

/-- The head of an item of that major type, with its argument. -/
def headBytes (major argument : Nat) : List UInt8 :=
  if argument < 24 then [headByte major argument]
  else if argument < UInt8.size then headByte major 24 :: bigEndian 1 argument
  else if argument < UInt16.size then headByte major 25 :: bigEndian 2 argument
  else if argument < UInt32.size then headByte major 26 :: bigEndian 4 argument
  else headByte major 27 :: bigEndian 8 argument

/-- The bytes of a text. -/
def utf8 (s : String) : List UInt8 :=
  s.toUTF8.data.toList

/-- A finite number in the shortest exact format. -/
def floatBytes (x : Binary64) : List UInt8 :=
  match Format.half.pack? x.toScaled with
  | some bits => headByte 7 25 :: bigEndian 2 bits
  | none =>
    match Format.single.pack? x.toScaled with
    | some bits => headByte 7 26 :: bigEndian 4 bits
    | none => headByte 7 27 :: bigEndian 8 x.bits.toNat

namespace Item

mutual

/-- The bytes of an item in front of `rest`. -/
def bytesOnto (rest : List UInt8) : Item → List UInt8
  | unsigned n => headBytes 0 n.toNat ++ rest
  | negative n => headBytes 1 n.toNat ++ rest
  | bytes bs => headBytes 2 bs.length ++ (bs ++ rest)
  | text s => headBytes 3 s.utf8ByteSize ++ (utf8 s ++ rest)
  | array items => headBytes 4 items.length ++ itemsOnto rest items
  | map _ entries => headBytes 5 entries.length ++ entriesOnto rest entries
  | tagged tag item => headBytes 6 tag.toNat ++ item.bytesOnto rest
  | bool b => headByte 7 (if b then 21 else 20) :: rest
  | null => headByte 7 22 :: rest
  | undefined => headByte 7 23 :: rest
  | float (some x) => floatBytes x ++ rest
  | float none => headByte 7 25 :: bigEndian 2 0x7e00 ++ rest

/-- The bytes of the items one after the other, in front of `rest`. -/
def itemsOnto (rest : List UInt8) : List Item → List UInt8
  | [] => rest
  | item :: items => item.bytesOnto (itemsOnto rest items)

/-- The bytes of keys and contents in turn, in front of `rest`. -/
def entriesOnto (rest : List UInt8) : List (Item × Item) → List UInt8
  | [] => rest
  | (key, content) :: entries => key.bytesOnto (content.bytesOnto (entriesOnto rest entries))

end

/-- The bytes of an item. -/
def encode (item : Item) : List UInt8 :=
  item.bytesOnto []

end Item

end RowFilter.Wire
