/-!
# Relational operators

The six comparisons and their complements: of two dual operators exactly one holds.
-/

namespace RowFilter

/-- A relational operator. -/
inductive RelOp where
  | eq
  | ne
  | lt
  | le
  | gt
  | ge
deriving DecidableEq, Repr, Hashable, Inhabited

namespace RelOp

/-- The operator that holds exactly where this one does not. -/
def dual : RelOp → RelOp
  | .eq => .ne
  | .ne => .eq
  | .lt => .ge
  | .ge => .lt
  | .le => .gt
  | .gt => .le

/-- The operator as filters spell it. -/
def symbol : RelOp → String
  | .eq => "="
  | .ne => "!="
  | .lt => "<"
  | .le => "<="
  | .gt => ">"
  | .ge => ">="

/-- All operators. -/
def all : List RelOp := [.eq, .ne, .lt, .le, .gt, .ge]

@[simp] theorem dual_dual (op : RelOp) : op.dual.dual = op := by
  cases op <;> rfl

theorem dual_ne (op : RelOp) : op.dual ≠ op := by
  cases op <;> decide

theorem symbol_injective {a b : RelOp} (h : a.symbol = b.symbol) : a = b := by
  cases a <;> cases b <;> first | rfl | exact absurd h (by decide)

end RelOp

end RowFilter
