import RowFilter.Wire.Decode

/-!
# Records and variants

A record is written as a map from field names to contents, a variant as its name alone or as a
map with the name as the only key. Reading also takes a record as the array of its contents, a
variant as an array of its name and its content, and a name as its bytes or as its position in
the order of declaration. Keys that name no field are passed over.
-/

namespace RowFilter.Wire.Item

/-! ## Scalars -/

/-- The text of a text string, or of a byte string that encodes one. -/
def toText? (item : Item) : Option String :=
  match item.untagged with
  | .text s => some s
  | .bytes bs => text? bs
  | _ => none

/-- The truth value. -/
def toBool? (item : Item) : Option Bool :=
  match item.untagged with
  | .bool b => some b
  | _ => none

/-- The integer, if it has sixty-four bits with its sign, or without. -/
def toInt? (item : Item) : Option Int :=
  match item.untagged with
  | .unsigned n => some n.toNat
  | .negative n =>
    let value : Int := -1 - (n.toNat : Int)
    if Int64.minValue.toInt ≤ value then some value else none
  | _ => none

/-- The items of an array. -/
def toArray? (item : Item) : Option (List Item) :=
  match item.untagged with
  | .array items => some items
  | _ => none

/-- The item stands for nothing. -/
def isUnit (item : Item) : Bool :=
  match item.untagged with
  | .null => true
  | .undefined => true
  | _ => false

/-! ## Names -/

/-- What a name stands for among the declared names: a position, or nothing; an item that is no
name at all gives none. -/
def position? (names : List String) (item : Item) : Option (Option Nat) :=
  match item.untagged with
  | .text s => some (names.idxOf? s)
  | .bytes bs => some ((text? bs).bind names.idxOf?)
  | .unsigned n => some (if n.toNat < names.length then some n.toNat else none)
  | _ => none

/-- The position of a name that must be declared. -/
def declared? (names : List String) (item : Item) : Option Nat :=
  (item.position? names).join

/-! ## Variants and records -/

/-- The position of a variant among the declared ones, and its content if it has any. -/
def toVariant? (names : List String) : Item → Option (Nat × Option Item)
  | .array [name, content] => (name.declared? names).map fun i => (i, some content)
  | .array _ => none
  | .map true [(name, content)] => (name.declared? names).map fun i => (i, some content)
  | .map _ _ => none
  | name => (name.declared? names).map fun i => (i, none)

/-- The position of a variant without content. -/
def toUnitVariant? (names : List String) (item : Item) : Option Nat :=
  match item.toVariant? names with
  | some (i, none) => some i
  | some (i, some content) => if content.isUnit then some i else none
  | none => none

/-- Collects the contents of the declared fields; `found` has a place for each. -/
def collectFields (names : List String) (found : List (Option Item)) :
    List (Item × Item) → Option (List (Option Item))
  | [] => some found
  | (key, content) :: rest =>
    match key.position? names with
    | none => none
    | some none => collectFields names found rest
    | some (some i) =>
      match found[i]? with
      | some none => collectFields names (found.set i (some content)) rest
      | _ => none

/-- The contents of all declared fields, in the order of declaration. -/
def toFields? (names : List String) (item : Item) : Option (List Item) :=
  match item.untagged with
  | .array items => if items.length = names.length then some items else none
  | .map _ entries =>
    (collectFields names (names.map fun _ => none) entries).bind fun found => found.mapM id
  | _ => none

end RowFilter.Wire.Item
