import RowFilter.Filter.Basic
import Std.Data.HashMap

/-!
# Numbering parameters

Binding gives every unnumbered parameter a number. There is one counter for each shape of
comparison. It starts above the numbers that leaves of the shape already carry anywhere in the
filter, and the occurrences take their numbers from left to right. The last number stays the
last: counting stops there.
-/

namespace RowFilter

/-- The number after `id`; the last number is its own successor. -/
def nextId (id : UInt32) : UInt32 :=
  if id = UInt32.ofNat (UInt32.size - 1) then id else id + 1

/-- The next free number of each shape; zero for shapes not mentioned. -/
abbrev Counters := Std.HashMap Shape UInt32

namespace Counters

/-- The next free number of a shape. -/
def next (counters : Counters) (s : Shape) : UInt32 :=
  counters.getD s 0

/-- Moves the counter of the leaf's shape above the leaf's number. -/
def skipPast (counters : Counters) (l : Leaf) : Counters :=
  match l.operand with
  | .bound id => counters.insert l.shape (max (counters.next l.shape) (nextId id))
  | _ => counters

/-- The counters above all numbers that the leaves carry. -/
def above (leaves : List Leaf) : Counters :=
  leaves.foldl skipPast ∅

end Counters

namespace Filter

/-- Numbers the unnumbered parameters from left to right, and moves the counters on. -/
def number (counters : Counters) : Filter → Filter × Counters
  | opened e => (opened e, counters)
  | closed e => (closed e, counters)
  | compare l =>
    match l.operand with
    | .unbound =>
      let id := counters.next l.shape
      (compare { l with operand := .bound id }, counters.insert l.shape (nextId id))
    | _ => (compare l, counters)
  | existence e c negated sub =>
    let (sub', counters') := sub.number counters
    (existence e c negated sub', counters')
  | junction e kind left right =>
    let (left', counters') := left.number counters
    let (right', counters'') := right.number counters'
    (junction e kind left' right', counters'')

/-- The filter with every parameter numbered. -/
def bind (f : Filter) : Filter :=
  if f.isBound then f else (f.number (Counters.above f.leaves)).1

end Filter

end RowFilter
