import RowFilter.Reading
import RowFilter.Wire.Item

/-!
# Items from bytes

Reading accepts more forms than writing produces: arguments in any width, strings, arrays and
maps of unstated length up to a break, and tags. Arrays, maps and tags may nest in each other a
limited number of levels deep, and what is left of that number is all that the reader recurs on.
-/

namespace RowFilter.Wire

open RowFilter.Number

/-- Takes something off the front of the bytes. -/
abbrev ByteReader (α : Type) : Type :=
  (bytes : List UInt8) → Option (Reading α bytes)

/-- The greatest number of arrays, maps and tags that stand in each other. -/
def nestingLimit : Nat := 127

/-- The byte that ends a string, an array or a map of unstated length. -/
def breakByte : UInt8 := 0xff

/-! ## Heads and strings -/

/-- The number that the bytes spell, the most significant byte first. -/
def bigEndianValue (bytes : List UInt8) : Nat :=
  bytes.foldl (fun n b => n * 256 + b.toNat) 0

/-- The major type, the low five bits, and the argument of a head. An unstated length has the
argument zero. -/
structure Head where
  major : Nat
  info : Nat
  argument : Nat
deriving DecidableEq, Repr

/-- The low five bits of heads whose length is not stated. -/
def unstated : Nat := 31

/-- A head; the low five bits 28 to 30 have no meaning. -/
def head : ByteReader Head
  | [] => none
  | b :: rest =>
    let major := b.toNat / 32
    let info := b.toNat % 32
    let wide (width : Nat) : Option (Reading Head (b :: rest)) :=
      (takeFrom [] width rest (Nat.lt_succ_self _)).map fun r =>
        r.map fun argument => ⟨major, info, bigEndianValue argument⟩
    if info < 24 then some ⟨⟨major, info, info⟩, rest, Nat.lt_succ_self _⟩
    else if info = 24 then wide 1
    else if info = 25 then wide 2
    else if info = 26 then wide 4
    else if info = 27 then wide 8
    else if info = unstated then some ⟨⟨major, info, 0⟩, rest, Nat.lt_succ_self _⟩
    else none

/-- The chunks of a string of unstated length, each a string of stated length, up to the break;
`taken` holds the chunks read so far in reverse order. -/
def chunksFrom (major : Nat) {input : List UInt8} (taken : List (List UInt8)) (bytes : List UInt8)
    (h : bytes.length < input.length) : Option (Reading (List UInt8) input) :=
  match bytes, h with
  | [], _ => none
  | b :: rest, h =>
    if b = breakByte then
      some ⟨taken.reverse.flatten, rest, Nat.lt_trans (Nat.lt_succ_self _) h⟩
    else
      match head (b :: rest) with
      | none => none
      | some chunk =>
        if chunk.value.major = major ∧ chunk.value.info ≠ unstated then
          match takeFrom [] chunk.value.argument chunk.rest chunk.shorter with
          | none => none
          | some r => chunksFrom major (r.value :: taken) r.rest (Nat.lt_trans r.shorter h)
        else none
termination_by bytes.length
decreasing_by exact r.shorter

/-- The content of a string behind its head. -/
def stringContent (h : Head) {input : List UInt8} (bytes : List UInt8)
    (hlt : bytes.length < input.length) : Option (Reading (List UInt8) input) :=
  if h.info = unstated then chunksFrom h.major [] bytes hlt
  else takeFrom [] h.argument bytes hlt

/-- The text that the bytes encode, if they do. -/
def text? (bytes : List UInt8) : Option String :=
  String.fromUTF8? bytes.toByteArray

/-! ## Runs of items -/

/-- Reads things up to the break, with those read so far in reverse order. -/
def untilBreakFrom {α : Type} (one : ByteReader α) {input : List UInt8} (read : List α)
    (bytes : List UInt8) (h : bytes.length < input.length) : Option (Reading (List α) input) :=
  match bytes, h with
  | [], _ => none
  | b :: rest, h =>
    if b = breakByte then some ⟨read.reverse, rest, Nat.lt_trans (Nat.lt_succ_self _) h⟩
    else
      match one (b :: rest) with
      | none => none
      | some r => untilBreakFrom one (r.value :: read) r.rest (Nat.lt_trans r.shorter h)
termination_by bytes.length
decreasing_by exact r.shorter

/-- The content of an array or a map behind its head. -/
def runContent {α : Type} (one : ByteReader α) (h : Head) {input : List UInt8}
    (bytes : List UInt8) (hlt : bytes.length < input.length) :
    Option (Reading (List α) input) :=
  if h.info = unstated then untilBreakFrom one [] bytes hlt
  else countedFrom one [] h.argument bytes hlt

/-- A key and its content. -/
def entry (one : ByteReader Item) : ByteReader (Item × Item) := fun bytes => do
  let key ← one bytes
  let content ← one key.rest
  return ⟨(key.value, content.value), content.rest, Nat.lt_trans content.shorter key.shorter⟩

/-! ## Items -/

/-- The number with these bits in a format; none if it is not finite. -/
def floatOf (f : Format) (bits : Nat) : Option Binary64 :=
  (f.unpack bits).bind Binary64.ofScaled?

/-- The simple value or number of a head of major type seven. -/
def simple? (h : Head) : Option Item :=
  match h.info with
  | 20 => some (.bool false)
  | 21 => some (.bool true)
  | 22 => some .null
  | 23 => some .undefined
  | 25 => some (.float (floatOf .half h.argument))
  | 26 => some (.float (floatOf .single h.argument))
  | 27 => some (.float (floatOf .double h.argument))
  | _ => none

/-- An item, given the reader of the items one level further in; without one, the item can be
no array, map or tag. -/
def itemOver (inner : Option (ByteReader Item)) : ByteReader Item := fun bytes => do
  let h ← head bytes
  match h.value.major with
  | 0 =>
    if h.value.info = unstated then none
    else return h.map fun _ => .unsigned (UInt64.ofNat h.value.argument)
  | 1 =>
    if h.value.info = unstated then none
    else return h.map fun _ => .negative (UInt64.ofNat h.value.argument)
  | 2 => return (← stringContent h.value h.rest h.shorter).map .bytes
  | 3 =>
    let content ← stringContent h.value h.rest h.shorter
    let s ← text? content.value
    return content.map fun _ => .text s
  | 4 => return (← runContent (← inner) h.value h.rest h.shorter).map .array
  | 5 =>
    let entries ← runContent (entry (← inner)) h.value h.rest h.shorter
    return entries.map (.map (h.value.info == 1))
  | 6 =>
    if h.value.info = unstated then none
    else
      let item ← (← inner) h.rest
      return (item.map (.tagged (UInt64.ofNat h.value.argument))).ofLonger h.shorter
  | _ =>
    let item ← simple? h.value
    return h.map fun _ => item

/-- An item with `room` levels left to enter. -/
def item : (room : Nat) → ByteReader Item
  | 0 => itemOver none
  | room + 1 => itemOver (some (item room))

/-- The item that the bytes encode, if they encode exactly one. -/
def Item.decode? (bytes : List UInt8) : Option Item :=
  match item nestingLimit bytes with
  | some r => if r.rest.isEmpty then some r.value else none
  | none => none

end RowFilter.Wire
