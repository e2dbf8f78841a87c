import RowFilter.Filter.Bind
import RowFilter.Filter.Cost
import RowFilter.Filter.NormalForm
import RowFilter.Pool.Basic

/-!
# Rewriting instances

Binding, normal forms and reordering, node by node in a pool. Where a rewrite leaves the filter
of an existence test as it is, which is seen by the number, the test stays as it is too.
-/

namespace RowFilter.Pool

/-! ## Numbering parameters -/

/-- Numbers the unnumbered parameters from left to right, and moves the counters on. -/
def number (counters : Counters) : Instance → Pooled (Instance × Counters)
  | i@⟨_, _, .compare l⟩ =>
    match l.operand with
    | .unbound => do
      let id := counters.next l.shape
      let i' ← give (.compare { l with operand := .bound id })
      return (i', counters.insert l.shape (nextId id))
    | _ => return (i, counters)
  | i@⟨_, _, .existence e c negated sub⟩ => do
    let (sub', counters') ← number counters sub
    if sub'.id = sub.id then return (i, counters')
    else return (← give (.existence e c negated sub'), counters')
  | ⟨_, _, .junction e kind left right⟩ => do
    let (left', counters') ← number counters left
    let (right', counters'') ← number counters' right
    return (← give (.junction e kind left' right'), counters'')
  | i => return (i, counters)

/-- The instance with every parameter numbered, which is remembered. A bound instance is its own
bound form. -/
def bind (i : Instance) : Pooled Instance := do
  if i.filter.isBound then return i
  match (← get).bound[i.id]? with
  | some known => return known
  | none =>
    let (b, _) ← number (Counters.above i.filter.leaves) i
    modify fun pool => { pool with bound := pool.bound.insert i.id b }
    return b

/-! ## Normal forms -/

/-- The clauses of the normal form with this outer junction. -/
def clauses (outer : Junction) (limit : Nat) :
    Instance → Except FilterError (List (List Instance))
  | ⟨_, _, .junction _ kind left right⟩ => do
    let ls ← clauses outer limit left
    let rs ← clauses outer limit right
    if kind = outer then
      Filter.checkCount limit (ls.length + rs.length)
      return ls ++ rs
    else
      Filter.checkCount limit (min (ls.length * rs.length) clauseCountBound)
      return distribute ls rs
  | i => .ok [[i]]

/-- The clauses of the normal form, each as an instance. -/
def split (ctx : Context) (outer : Junction) (i : Instance) : Attempt (List Instance) := do
  let clauses ← MonadExcept.ofExcept (clauses outer ctx.config.maxClauses i)
  clauses.mapM ((builder ctx).joinAll i.node.entity outer.dual)

/-- The normal form with this outer junction. -/
def normalForm (ctx : Context) (outer : Junction) (i : Instance) : Attempt Instance := do
  let clauses ← split ctx outer i
  (builder ctx).joinAll i.node.entity outer clauses

/-! ## Cheap tests first -/

/-- The reordered operands of the maximal run of `run` that the instance is; outside any run, or
if the instance is no junction of that kind, the one reordered instance. -/
def reordered (ctx : Context) : (run : Option Junction) → Instance → Attempt (List Instance)
  | run, ⟨_, _, .junction e kind left right⟩ => do
    let ls ← reordered ctx (some kind) left
    let rs ← reordered ctx (some kind) right
    if run = some kind then return ls ++ rs
    else return [← (builder ctx).joinAll e kind (cheapestFirst (fun i => i.filter.cost) (ls ++ rs))]
  | _, i@⟨_, _, .existence e c negated sub⟩ => do
    let sub' ← (builder ctx).joinAll sub.node.entity .and (← reordered ctx none sub)
    if sub'.id = sub.id then return [i]
    else return [← (builder ctx).existence e c negated sub']
  | _, i => return [i]

/-- The instance with the operands of every run in ascending order of cost. -/
def optimize (ctx : Context) (i : Instance) : Attempt Instance := do
  (builder ctx).joinAll i.node.entity .and (← reordered ctx none i)

end RowFilter.Pool
