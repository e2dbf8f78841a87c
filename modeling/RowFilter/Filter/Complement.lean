import RowFilter.Filter.Basic

/-!
# The complement of a filter

The complement holds exactly where the filter does not. The open and the closed filter change
places, a comparison takes its opposite, an existence test changes its sign and keeps the filter
inside, and a junction becomes the other junction of the complements. Main statements: the
complement of the complement is the filter, and entity and depth stay.
-/

namespace RowFilter.Filter

/-- The filter that holds exactly where this one does not. -/
def complement : Filter → Filter
  | opened e => closed e
  | closed e => opened e
  | compare l => compare l.complement
  | existence e c negated sub => existence e c (!negated) sub
  | junction e kind left right => junction e kind.dual left.complement right.complement

@[simp] theorem complement_complement (f : Filter) : f.complement.complement = f := by
  induction f with
  | opened | closed => rfl
  | compare l => simp [complement]
  | existence => simp [complement]
  | junction e kind left right ihl ihr => simp [complement, ihl, ihr]

@[simp] theorem entity_complement (f : Filter) : f.complement.entity = f.entity := by
  cases f <;> rfl

@[simp] theorem depth_complement (f : Filter) : f.complement.depth = f.depth := by
  induction f with
  | opened | closed | compare | existence => rfl
  | junction e kind left right ihl ihr => simp [complement, depth, ihl, ihr]

@[simp] theorem isOpen_complement (f : Filter) : f.complement.isOpen = f.isClosed := by
  cases f <;> rfl

@[simp] theorem isClosed_complement (f : Filter) : f.complement.isClosed = f.isOpen := by
  cases f <;> rfl

/-- No filter is its own complement. -/
theorem complement_ne (f : Filter) : f.complement ≠ f := by
  cases f with
  | opened | closed => simp [complement]
  | compare l =>
    intro h
    have hop : l.shape.op.dual = l.shape.op := congrArg (fun l => l.shape.op) (compare.inj h)
    exact RelOp.dual_ne _ hop
  | existence e c negated sub => simp [complement]
  | junction e kind left right => cases kind <;> simp [complement, Junction.dual]

end RowFilter.Filter
