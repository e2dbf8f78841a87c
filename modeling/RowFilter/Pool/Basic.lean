import RowFilter.Builder
import RowFilter.Pool.Instance
import Std.Data.HashMap

/-!
# Pools

A pool holds one instance for every node it has met and gives that one out whenever the node
comes up again. It also remembers what was computed about its instances: complements, bound
forms, and the filters that texts were read as. Nothing is ever taken out of a pool. In a pool
filters are built node by node like anywhere else; the pool's builder looks every node up.
-/

namespace RowFilter

/-- The instances given out so far, and what is remembered about them. -/
structure Pool where
  /-- The instance of each node. -/
  instances : Std.HashMap (Node Nat) Instance := ∅
  /-- The complement of instances, by their number. -/
  complements : Std.HashMap Nat Instance := ∅
  /-- The bound form of instances, by their number. -/
  bound : Std.HashMap Nat Instance := ∅
  /-- What was read, by the entity and the text of the tokens. -/
  parsed : Std.HashMap (String × String) Instance := ∅

/-- A computation with a pool. -/
abbrev Pooled (α : Type) : Type :=
  StateM Pool α

namespace Pool

/-- A computation with a pool that can fail. What it has entered by then stays in the pool. -/
abbrev Attempt (α : Type) : Type :=
  ExceptT FilterError (StateM Pool) α

/-- The pool before anything was asked of it. -/
def empty : Pool := {}

/-- The instance of a node: the one in the pool, or else a new one with the next number. -/
def give (n : Node Instance) : Pooled Instance := fun pool =>
  let key := n.map Instance.id
  match pool.instances[key]? with
  | some known => (known, pool)
  | none =>
    let fresh := ⟨pool.instances.size, n.depth Instance.depth, n⟩
    (fresh, { pool with instances := pool.instances.insert key fresh })

/-- The instance of a filter. -/
def instanceOf : Filter → Pooled Instance
  | .opened e => give (.opened e)
  | .closed e => give (.closed e)
  | .compare l => give (.compare l)
  | .existence e c negated sub => do
    let sub' ← instanceOf sub
    give (.existence e c negated sub')
  | .junction e kind left right => do
    let left' ← instanceOf left
    let right' ← instanceOf right
    give (.junction e kind left' right')

/-- The remembered complement of an instance, or else the computed one, which is remembered in
both directions. -/
def recallComplement (i : Instance) (compute : Pooled Instance) : Pooled Instance := do
  match (← get).complements[i.id]? with
  | some known => return known
  | none =>
    let c ← compute
    modify fun pool =>
      { pool with complements := (pool.complements.insert c.id i).insert i.id c }
    return c

/-- The instance of the complement. -/
def complement : Instance → Pooled Instance
  | i@⟨_, _, .opened e⟩ => recallComplement i (give (.closed e))
  | i@⟨_, _, .closed e⟩ => recallComplement i (give (.opened e))
  | i@⟨_, _, .compare l⟩ => recallComplement i (give (.compare l.complement))
  | i@⟨_, _, .existence e c negated sub⟩ =>
    recallComplement i (give (.existence e c (!negated) sub))
  | i@⟨_, _, .junction e kind left right⟩ =>
    recallComplement i do
      let left' ← complement left
      let right' ← complement right
      give (.junction e kind.dual left' right')

/-- The builder that makes every filter an instance of the pool. -/
def builder (ctx : Context) : Builder Attempt Instance where
  schema := ctx.schema
  maxDepth := ctx.config.maxDepth
  make n := liftM (give n)
  complement i := liftM (complement i)
  entityOf i := i.node.entity
  depthOf := Instance.depth
  isOpen i := i.node.isOpen
  isClosed i := i.node.isClosed

end Pool

end RowFilter
