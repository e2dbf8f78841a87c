import RowFilter.Filter.Node

/-!
# Instances

An instance is a filter as a pool keeps it: a node over instances, with a number and with the
depth, which is counted once, when the instance is made. Numbers are given out by a pool, which
gives the same filter the same number every time; so where two instances come from one pool,
comparing their numbers compares the filters. The key of an instance is what the pool knows it
by: its node, with the numbers of the parts.
-/

namespace RowFilter

/-- A filter with a number and a depth at every node. -/
structure Instance where
  id : Nat
  depth : Nat
  node : Node Instance

namespace Instance

/-- What a pool knows the instance by. -/
def key (i : Instance) : Node Nat :=
  i.node.map id

/-- The filter without numbers and depths. -/
def filter : Instance → Filter
  | ⟨_, _, .opened e⟩ => .opened e
  | ⟨_, _, .closed e⟩ => .closed e
  | ⟨_, _, .compare l⟩ => .compare l
  | ⟨_, _, .existence e c negated sub⟩ => .existence e c negated sub.filter
  | ⟨_, _, .junction e kind left right⟩ => .junction e kind left.filter right.filter

/-- The instance and all instances beneath it, from the top down. -/
def nodes : Instance → List Instance
  | i@⟨_, _, .existence _ _ _ sub⟩ => i :: sub.nodes
  | i@⟨_, _, .junction _ _ left right⟩ => i :: (left.nodes ++ right.nodes)
  | i => [i]

/-- The comparisons from left to right in front of `rest`. -/
def leavesOnto : Instance → List Instance → List Instance
  | ⟨_, _, .opened _⟩, rest => rest
  | ⟨_, _, .closed _⟩, rest => rest
  | i@⟨_, _, .compare _⟩, rest => i :: rest
  | ⟨_, _, .existence _ _ _ sub⟩, rest => sub.leavesOnto rest
  | ⟨_, _, .junction _ _ left right⟩, rest => left.leavesOnto (right.leavesOnto rest)

/-- The comparisons from left to right, repetitions kept, those inside existence tests
included. -/
def leaves (i : Instance) : List Instance :=
  i.leavesOnto []

/-- The left operand of a junction. -/
def left? (i : Instance) : Option Instance :=
  match i.node with
  | .junction _ _ left _ => some left
  | _ => none

/-- The right operand of a junction. -/
def right? (i : Instance) : Option Instance :=
  match i.node with
  | .junction _ _ _ right => some right
  | _ => none

/-- The filter inside an existence test. -/
def sub? (i : Instance) : Option Instance :=
  match i.node with
  | .existence _ _ _ sub => some sub
  | _ => none

/-- Induction over the instances beneath. -/
@[elab_as_elim, induction_eliminator]
theorem induct {motive : Instance → Prop}
    (opened : ∀ id depth e, motive ⟨id, depth, .opened e⟩)
    (closed : ∀ id depth e, motive ⟨id, depth, .closed e⟩)
    (compare : ∀ id depth l, motive ⟨id, depth, .compare l⟩)
    (existence : ∀ id depth e c negated sub, motive sub →
      motive ⟨id, depth, .existence e c negated sub⟩)
    (junction : ∀ id depth e kind left right, motive left → motive right →
      motive ⟨id, depth, .junction e kind left right⟩) : ∀ i, motive i
  | ⟨id, depth, .opened e⟩ => opened id depth e
  | ⟨id, depth, .closed e⟩ => closed id depth e
  | ⟨id, depth, .compare l⟩ => compare id depth l
  | ⟨id, depth, .existence e c negated sub⟩ =>
    existence id depth e c negated sub (induct opened closed compare existence junction sub)
  | ⟨id, depth, .junction e kind left right⟩ =>
    junction id depth e kind left right (induct opened closed compare existence junction left)
      (induct opened closed compare existence junction right)

/-- The filter is the node over the filters of the parts. -/
theorem filter_eq (i : Instance) : i.filter = (i.node.map filter).filter := by
  obtain ⟨_, _, n⟩ := i
  cases n <;> simp [filter, Node.map, Node.filter]

theorem node_filter (i : Instance) : i.filter.node = i.node.map filter := by
  rw [filter_eq, Node.node_filter]

theorem filter_leavesOnto (i : Instance) (rest : List Instance) :
    (i.leavesOnto rest).map filter =
      i.filter.leaves.map Filter.compare ++ rest.map filter := by
  induction i generalizing rest with
  | opened | closed | compare => simp [leavesOnto, filter]
  | existence _ _ _ _ _ sub ih => simpa [leavesOnto, filter] using ih rest
  | junction _ _ _ _ left right ihl ihr =>
    rw [leavesOnto, ihl, ihr, filter, Filter.leaves_junction, List.map_append,
      List.append_assoc]

/-- The comparisons of an instance are those of its filter. -/
theorem filter_leaves (i : Instance) :
    i.leaves.map filter = i.filter.leaves.map Filter.compare := by
  rw [leaves, filter_leavesOnto, List.map_nil, List.append_nil]

end Instance

end RowFilter
