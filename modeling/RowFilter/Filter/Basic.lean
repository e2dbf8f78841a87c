import RowFilter.Chain.Basic
import RowFilter.RelOp
import RowFilter.Value.Basic

/-!
# Filters

A filter is a condition on the rows of one entity: the open filter, which every row meets, the
closed filter, which none does, a comparison, a test for related rows, or a junction of two
filters. Every node carries the name of the entity whose rows it is about; the filter inside an
existence test is about the rows at the end of its chain.
-/

namespace RowFilter

/-- What a property is compared with. -/
inductive Operand where
  /-- A parameter without a number. -/
  | unbound
  /-- A numbered parameter; occurrences of a leaf with one number are one parameter. -/
  | bound (id : UInt32)
  /-- A fixed value of the property's type. -/
  | constant (value : Value)
deriving DecidableEq, Hashable

namespace Operand

/-- The operand is a parameter, numbered or not. -/
def isParameter : Operand → Bool
  | .constant _ => false
  | _ => true

end Operand

/-- What is compared, and by which operator. -/
structure Shape where
  chain : Chain
  op : RelOp
deriving DecidableEq, Hashable

/-- The shape of the opposite comparison: the dual operator, reached over joins of the opposite
direction, so that a missing row decides the other way. -/
def Shape.complement (s : Shape) : Shape :=
  ⟨s.chain.flipJoins, s.op.dual⟩

@[simp] theorem Shape.complement_complement (s : Shape) : s.complement.complement = s := by
  simp [complement]

/-- A comparison at the leaf of a filter. -/
structure Leaf where
  entity : String
  shape : Shape
  operand : Operand
deriving DecidableEq, Hashable

namespace Leaf

/-- The chain to the compared property. -/
def chain (l : Leaf) : Chain := l.shape.chain

/-- The opposite comparison with the same operand. -/
def complement (l : Leaf) : Leaf :=
  { l with shape := l.shape.complement }

/-- Complementing twice changes nothing, since operators and joins are turned back. -/
@[simp] theorem complement_complement (l : Leaf) : l.complement.complement = l := by
  simp [complement]

end Leaf

/-- The two junctions. -/
inductive Junction where
  | and
  | or
deriving DecidableEq, Repr, Hashable, Inhabited

/-- The other junction. -/
def Junction.dual : Junction → Junction
  | .and => .or
  | .or => .and

@[simp] theorem Junction.dual_dual (k : Junction) : k.dual.dual = k := by
  cases k <;> rfl

/-- A condition on the rows of an entity. -/
inductive Filter where
  /-- Every row. -/
  | opened (entity : String)
  /-- No row. -/
  | closed (entity : String)
  /-- The rows whose property compares as the leaf says. -/
  | compare (leaf : Leaf)
  /-- The rows with (or, negated, without) a row at the end of the chain that meets `sub`. -/
  | existence (entity : String) (chain : Chain) (negated : Bool) (sub : Filter)
  | junction (entity : String) (kind : Junction) (left : Filter) (right : Filter)
deriving DecidableEq, Hashable

namespace Filter

/-- The entity whose rows the filter is about. -/
def entity : Filter → String
  | opened e => e
  | closed e => e
  | compare l => l.entity
  | existence e _ _ _ => e
  | junction e _ _ _ => e

/-- The number of levels; a leaf has one. -/
def depth : Filter → Nat
  | opened _ => 1
  | closed _ => 1
  | compare _ => 1
  | existence _ _ _ sub => sub.depth + 1
  | junction _ _ left right => max left.depth right.depth + 1

/-- The filter is the open one. -/
def isOpen : Filter → Bool
  | opened _ => true
  | _ => false

/-- The filter is the closed one. -/
def isClosed : Filter → Bool
  | closed _ => true
  | _ => false

/-- The comparisons from left to right in front of `rest`, those inside existence tests
included. -/
def leavesOnto : Filter → List Leaf → List Leaf
  | opened _, rest => rest
  | closed _, rest => rest
  | compare l, rest => l :: rest
  | existence _ _ _ sub, rest => sub.leavesOnto rest
  | junction _ _ left right, rest => left.leavesOnto (right.leavesOnto rest)

/-- The comparisons from left to right, repetitions kept, those inside existence tests
included. -/
def leaves (f : Filter) : List Leaf :=
  f.leavesOnto []

/-- Every parameter is numbered. -/
def isBound (f : Filter) : Bool :=
  f.leaves.all fun l => l.operand ≠ .unbound

/-- Collecting in front of a list is collecting and appending. -/
theorem leavesOnto_eq (f : Filter) (rest : List Leaf) :
    f.leavesOnto rest = f.leaves ++ rest := by
  unfold leaves
  induction f generalizing rest with
  | opened | closed | compare => rfl
  | existence _ _ _ sub ih => exact ih rest
  | junction _ _ left right ihl ihr =>
    rw [leavesOnto, leavesOnto, ihl, ihr, ihl (right.leavesOnto []), List.append_assoc]

@[simp] theorem leaves_opened (e : String) : (opened e).leaves = [] := rfl

@[simp] theorem leaves_closed (e : String) : (closed e).leaves = [] := rfl

@[simp] theorem leaves_compare (l : Leaf) : (compare l).leaves = [l] := rfl

@[simp] theorem leaves_existence (e : String) (c : Chain) (n : Bool) (sub : Filter) :
    (existence e c n sub).leaves = sub.leaves := rfl

@[simp] theorem leaves_junction (e : String) (k : Junction) (left right : Filter) :
    (junction e k left right).leaves = left.leaves ++ right.leaves := by
  rw [leaves, leavesOnto, leavesOnto_eq]
  rfl

theorem depth_pos (f : Filter) : 0 < f.depth := by
  cases f <;> simp [depth]

end Filter

end RowFilter
