import RowFilter.Context
import RowFilter.Filter.Complement
import RowFilter.Filter.Node

/-!
# Building filters within the limits

Filters come about node by node. A builder says how a node is made, and how a complement is
taken, in some monad and for some form of filters; everything that builds filters is written
against it. There are two builders: the one here just builds the tree, and the one of a pool
looks every node up first.

Filters grow by three steps, each of which keeps them in shape: a junction over the open or the
closed filter gives way to one of its operands, an existence test never stands over the closed
filter, and nothing grows deeper than the configuration allows.
-/

namespace RowFilter

/-- How filters of the form `φ` are made in the monad `m`. -/
structure Builder (m : Type → Type) (φ : Type) where
  schema : Schema
  /-- The greatest depth of a filter, and of the nesting of its text. -/
  maxDepth : Nat
  /-- The filter with this top. -/
  make : Node φ → m φ
  /-- The filter that holds exactly where the given one does not. -/
  complement : φ → m φ
  entityOf : φ → String
  depthOf : φ → Nat
  isOpen : φ → Bool
  isClosed : φ → Bool

namespace Builder

variable {m : Type → Type} {φ : Type}

/-- The filter decides the junction alone: closed in a conjunction, open in a disjunction. -/
def absorbs (b : Builder m φ) : Junction → φ → Bool
  | .and, f => b.isClosed f
  | .or, f => b.isOpen f

/-- The filter adds nothing to the junction: open in a conjunction, closed in a disjunction. -/
def ignores (b : Builder m φ) : Junction → φ → Bool
  | .and, f => b.isOpen f
  | .or, f => b.isClosed f

/-- The junction of no filters. -/
def unit (b : Builder m φ) (entity : String) : Junction → m φ
  | .and => b.make (.opened entity)
  | .or => b.make (.closed entity)

variable [Monad m] [MonadExcept FilterError m]

/-- The filter with this top, unless it is too deep. -/
def withinDepth (b : Builder m φ) (n : Node φ) : m φ :=
  if b.maxDepth < n.depth b.depthOf then throw (.tooDeep b.maxDepth) else b.make n

/-- The junction of two filters over one entity. If one of them is open or closed, the result
is one of the two. -/
def join (b : Builder m φ) (kind : Junction) (left right : φ) : m φ :=
  if b.absorbs kind left || b.ignores kind right then pure left
  else if b.absorbs kind right || b.ignores kind left then pure right
  else b.withinDepth (.junction (b.entityOf left) kind left right)

/-- The junction of filters over `entity`, grouped to the left. -/
def joinAll (b : Builder m φ) (entity : String) (kind : Junction) : List φ → m φ
  | [] => b.unit entity kind
  | f :: rest => rest.foldlM (b.join kind) f

/-- The junction of two filters, which must be over one entity. -/
def combine (b : Builder m φ) (kind : Junction) (left right : φ) : m φ :=
  if b.entityOf left = b.entityOf right then b.join kind left right
  else throw (.schema (.entityMismatch (b.entityOf left) (b.entityOf right)))

/-- The existence test over `sub`, which must not be closed. -/
def existence (b : Builder m φ) (entity : String) (chain : Chain) (negated : Bool) (sub : φ) :
    m φ :=
  if b.isClosed sub then throw chain.overClosed
  else b.withinDepth (.existence entity chain negated sub)

end Builder

/-! ## Building trees -/

/-- The builder that just builds the tree. -/
def Context.builder (ctx : Context) : Builder (Except FilterError) Filter where
  schema := ctx.schema
  maxDepth := ctx.config.maxDepth
  make n := .ok n.filter
  complement f := .ok f.complement
  entityOf := Filter.entity
  depthOf := Filter.depth
  isOpen := Filter.isOpen
  isClosed := Filter.isClosed

namespace Context

/-- The junction of two trees over one entity. -/
def join (ctx : Context) : Junction → Filter → Filter → Except FilterError Filter :=
  ctx.builder.join

/-- The junction of trees over the named entity, grouped to the left. -/
def joinAll (ctx : Context) : String → Junction → List Filter → Except FilterError Filter :=
  ctx.builder.joinAll

/-- The existence test over a tree. -/
def existence (ctx : Context) :
    String → Chain → Bool → Filter → Except FilterError Filter :=
  ctx.builder.existence

end Context

end RowFilter
