import RowFilter.Value.Coerce
import RowFilter.Filter.Bind
import RowFilter.Filter.Render

/-!
# Values for parameters

A value set is a bound filter with the values supplied for its parameters so far. There is one
slot for each distinct parameter, in the order of first occurrence; a parameter that occurs more
than once is supplied once for all occurrences. Values are coerced to the type of the compared
property when they are supplied. They can be read back for any filter whose parameters are
parameters of the set.
-/

namespace RowFilter

/-- A parameter and its value, if it has one. -/
structure Slot where
  leaf : Leaf
  value : Option Value
deriving DecidableEq

/-- A filter and what its parameters stand for. -/
structure ValueSet where
  filter : Filter
  slots : List Slot
  /-- The number of slots without a value. -/
  blank : Nat
deriving DecidableEq

namespace Filter

/-- The parameters from left to right, repetitions kept. -/
def parameters (f : Filter) : List Leaf :=
  f.leaves.filter fun l => l.operand.isParameter

end Filter

namespace ValueSet

/-- The set over a bound filter in which no parameter has a value. -/
def empty (f : Filter) : ValueSet :=
  let leaves := f.parameters.eraseDups
  ⟨f, leaves.map fun l => ⟨l, none⟩, leaves.length⟩

/-- The set over the bound form of a filter in which no parameter has a value. -/
def ofFilter (f : Filter) : ValueSet :=
  empty f.bind

/-- The values, slot by slot. -/
def values (vs : ValueSet) : List (Option Value) :=
  vs.slots.map Slot.value

/-- Every slot has a value. -/
def isFull (vs : ValueSet) : Bool :=
  vs.blank == 0

/-- The parameters without a value. -/
def blanks (vs : ValueSet) : List Leaf :=
  (vs.slots.filter fun s => s.value.isNone).map Slot.leaf

/-- The slot of a parameter. -/
def slot? (vs : ValueSet) (l : Leaf) : Option Slot :=
  vs.slots.find? fun s => s.leaf = l

/-! ## Supplying values -/

/-- Puts a value into the slot at some place. -/
def fill (vs : ValueSet) (index : Nat) (v : Value) : Except FilterError ValueSet :=
  match vs.slots[index]? with
  | none => .ok vs
  | some s => do
    let w ← s.leaf.chain.coerce v
    return { vs with
      slots := vs.slots.set index { s with value := some w }
      blank := if s.value.isNone then vs.blank - 1 else vs.blank }

/-- The error that there is no slot for a value. -/
def overfull (vs : ValueSet) : FilterError :=
  .binding (.tooManyValues vs.slots.length)

/-- Puts a value into the first slot that has none. -/
def supply (vs : ValueSet) (v : Value) : Except FilterError ValueSet :=
  match vs.slots.findIdx? fun s => s.value.isNone with
  | none => .error vs.overfull
  | some index => vs.fill index v

/-- Puts values into the slots that have none, one after the other. -/
def supplyAll (vs : ValueSet) (values : List Value) : Except FilterError ValueSet :=
  values.foldlM supply vs

/-- Puts values into the slots from the first on, leaving out those that are missing. -/
def fillFrom (vs : ValueSet) (index : Nat) : List (Option Value) → Except FilterError ValueSet
  | [] => .ok vs
  | none :: rest => vs.fillFrom (index + 1) rest
  | some v :: rest => do
    let vs' ← vs.fill index v
    vs'.fillFrom (index + 1) rest

/-- The set over a bound filter with these values, slot by slot. -/
def ofValues (f : Filter) (values : List (Option Value)) : Except FilterError ValueSet :=
  let vs := empty f
  if vs.slots.length < values.length then .error vs.overfull else vs.fillFrom 0 values

/-! ## Reading values -/

/-- Reads on: the values of the leaves, with those read so far in reverse order and the number
of occurrences met so far that have none. -/
def readFrom (vs : ValueSet) (read : List Value) (missing : Nat) :
    List Leaf → Except FilterError (List Value)
  | [] => if missing = 0 then .ok read.reverse else .error (.binding (.blankSlots missing))
  | l :: rest =>
    match l.operand with
    | .constant _ => vs.readFrom read missing rest
    | .unbound => .error (.binding (.unbound l.render))
    | .bound _ =>
      match vs.slot? l with
      | none => .error (.binding (.unknownParameter l.render))
      | some ⟨_, some v⟩ => vs.readFrom (v :: read) missing rest
      | some ⟨_, none⟩ => vs.readFrom read (missing + 1) rest

/-- The values of the parameters of `f` from left to right, one for each occurrence. -/
def valuesFor (vs : ValueSet) (f : Filter) : Except FilterError (List Value) :=
  vs.readFrom [] 0 f.leaves

/-- The values of the set's own filter. -/
def allValues (vs : ValueSet) : Except FilterError (List Value) :=
  vs.valuesFor vs.filter

/-- The filter as text, with the supplied values in place of their parameters. -/
def render (vs : ValueSet) : String :=
  vs.filter.renderWith fun l => (vs.slot? l).bind Slot.value

end ValueSet

end RowFilter
