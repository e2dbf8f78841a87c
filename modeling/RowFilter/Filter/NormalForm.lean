import RowFilter.Builder

/-!
# Normal forms

The disjunctive normal form is an alternative of clauses, each a conjunction without junctions
inside; the conjunctive one is its dual. Both come from one expansion, given the outer junction:
the clauses of an outer junction are those of its operands one after the other, the clauses of an
inner junction are all ways to put a clause of the left operand in front of one of the right
operand. Existence tests are atoms. The number of clauses is limited at every step.
-/

namespace RowFilter

/-- The greatest number a clause count can take; larger products count as this. -/
def clauseCountBound : Nat := UInt64.size - 1

/-- All ways to put a clause of the one list in front of a clause of the other. -/
def distribute {α : Type} (left right : List (List α)) : List (List α) :=
  left.flatMap fun l => right.map fun r => l ++ r

theorem map_distribute {α β : Type} (f : α → β) (left right : List (List α)) :
    (distribute left right).map (List.map f) =
      distribute (left.map (List.map f)) (right.map (List.map f)) := by
  simp [distribute, List.map_flatMap, List.flatMap_map, Function.comp_def]

/-- A clause of the product is a clause of the one list in front of a clause of the other. -/
theorem mem_distribute {α : Type} {left right : List (List α)} {c : List α} :
    c ∈ distribute left right ↔ ∃ l ∈ left, ∃ r ∈ right, l ++ r = c := by
  simp [distribute]

namespace Filter

/-- There are not too many clauses. -/
def checkCount (limit : Nat) (count : Nat) : Except FilterError Unit :=
  if limit < count then .error (.tooManyClauses limit) else .ok ()

/-- The clauses of the normal form with this outer junction. -/
def clauses (outer : Junction) (limit : Nat) : Filter → Except FilterError (List (List Filter))
  | junction _ kind left right => do
    let ls ← left.clauses outer limit
    let rs ← right.clauses outer limit
    if kind = outer then
      checkCount limit (ls.length + rs.length)
      return ls ++ rs
    else
      checkCount limit (min (ls.length * rs.length) clauseCountBound)
      return distribute ls rs
  | f => .ok [[f]]

/-- No junction of another kind than `kind` stands in the filter, existence tests aside. -/
def isFlat (kind : Junction) : Filter → Bool
  | junction _ k left right => k = kind && left.isFlat kind && right.isFlat kind
  | _ => true

/-- No outer junction stands beneath an inner one, existence tests aside. -/
def isNormal (outer : Junction) : Filter → Bool
  | f@(junction _ kind left right) =>
    if kind = outer then left.isNormal outer && right.isNormal outer else f.isFlat outer.dual
  | _ => true

end Filter

namespace Context

/-- The clauses of the normal form, each as a filter. -/
def split (ctx : Context) (outer : Junction) (f : Filter) : Except FilterError (List Filter) := do
  let clauses ← f.clauses outer ctx.config.maxClauses
  clauses.mapM (ctx.joinAll f.entity outer.dual)

/-- The normal form with this outer junction. -/
def normalForm (ctx : Context) (outer : Junction) (f : Filter) : Except FilterError Filter := do
  let clauses ← ctx.split outer f
  ctx.joinAll f.entity outer clauses

end Context

end RowFilter
