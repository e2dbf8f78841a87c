import RowFilter.Pool.Rewrite
import RowFilter.Wire.Outline

/-!
# Requests to a pool

A pool serves one context. Every request for filters is answered with instances from the pool,
and what the pool remembers only saves work: `Context.answer` says, without a pool, which filters
the instances are. A request that fails leaves in the pool what it had entered by then.
-/

namespace RowFilter

/-- What can be asked for, about filters of the form `φ`. -/
inductive Query (φ : Type) where
  /-- The filter that a text spells. -/
  | parse (entity : String) (text : String)
  /-- A comparison with a parameter. -/
  | comparison (entity : String) (path : String) (op : RelOp)
  /-- A comparison with a fixed value. -/
  | constant (entity : String) (path : String) (op : RelOp) (value : Value)
  /-- A test for related rows. -/
  | rowsAt (entity : String) (path : String) (sub : φ) (negated : Bool)
  | opened (entity : String)
  | closed (entity : String)
  | combine (kind : Junction) (left : φ) (right : φ)
  | complement (f : φ)
  | bind (f : φ)
  | optimize (f : φ)
  /-- The normal form with that outer junction. -/
  | normalForm (outer : Junction) (f : φ)
  /-- The clauses of the normal form with that outer junction. -/
  | split (outer : Junction) (f : φ)
  /-- The filter that an outline describes. -/
  | rebuild (outline : Outline)
  /-- The filter that bytes encode. -/
  | decode (bytes : List UInt8)

/-- What can be asked of a pool. -/
abbrev Request : Type :=
  Query Instance

namespace Query

variable {φ ψ : Type}

/-- The filters that the query is about. -/
def arguments : Query φ → List φ
  | rowsAt _ _ sub _ => [sub]
  | combine _ left right => [left, right]
  | complement f | bind f | optimize f | normalForm _ f | split _ f => [f]
  | _ => []

/-- The query about other filters. -/
def map (g : φ → ψ) : Query φ → Query ψ
  | parse entity text => parse entity text
  | comparison entity path op => comparison entity path op
  | constant entity path op v => constant entity path op v
  | rowsAt entity path sub negated => rowsAt entity path (g sub) negated
  | opened entity => opened entity
  | closed entity => closed entity
  | combine kind left right => combine kind (g left) (g right)
  | complement f => complement (g f)
  | bind f => bind (g f)
  | optimize f => optimize (g f)
  | normalForm outer f => normalForm outer (g f)
  | split outer f => split outer (g f)
  | rebuild outline => rebuild outline
  | decode bytes => decode bytes

end Query

open RowFilter.Grammar

/-- The filters that answer a query: several for the clauses of a normal form, else one. -/
def Context.answer (ctx : Context) : Query Filter → Except FilterError (List Filter)
  | .parse entity text => return [← ctx.parse entity text]
  | .comparison entity path op => return [← ctx.builder.comparison entity path op]
  | .constant entity path op v => return [← ctx.builder.constant entity path op v]
  | .rowsAt entity path sub negated => return [← ctx.builder.rowsAt entity path sub negated]
  | .opened entity => return [← ctx.builder.opened entity]
  | .closed entity => return [← ctx.builder.closed entity]
  | .combine kind left right => return [← ctx.builder.combine kind left right]
  | .complement f => return [f.complement]
  | .bind f => return [f.bind]
  | .optimize f => return [← ctx.optimize f]
  | .normalForm outer f => return [← ctx.normalForm outer f]
  | .split outer f => ctx.split outer f
  | .rebuild outline => return [← ctx.rebuild outline]
  | .decode bytes => return [← ctx.decodeFilter bytes]

namespace Pool

/-- The instance of the filter that a text spells. It is remembered, if the configuration says
so, for all texts with the same tokens. -/
def parse (ctx : Context) (entity text : String) : Attempt Instance := do
  let e ← (builder ctx).entity entity
  let tokens ← MonadExcept.ofExcept (scan text)
  if !ctx.config.parseCache then wholeFilter ⟨builder ctx, text⟩ e tokens
  else
    let key := (e.name, Token.text tokens)
    match (← get).parsed[key]? with
    | some known => return known
    | none =>
      let i ← wholeFilter ⟨builder ctx, text⟩ e tokens
      modify fun pool => { pool with parsed := pool.parsed.insert key i }
      return i

/-- The instances that answer a request. -/
def serve (ctx : Context) : Request → Attempt (List Instance)
  | .parse entity text => return [← parse ctx entity text]
  | .comparison entity path op => return [← (builder ctx).comparison entity path op]
  | .constant entity path op v => return [← (builder ctx).constant entity path op v]
  | .rowsAt entity path sub negated => return [← (builder ctx).rowsAt entity path sub negated]
  | .opened entity => return [← (builder ctx).opened entity]
  | .closed entity => return [← (builder ctx).closed entity]
  | .combine kind left right => return [← (builder ctx).combine kind left right]
  | .complement i => return [← complement i]
  | .bind i => return [← bind i]
  | .optimize i => return [← optimize ctx i]
  | .normalForm outer i => return [← normalForm ctx outer i]
  | .split outer i => split ctx outer i
  | .rebuild outline => return [← (builder ctx).rebuild outline]
  | .decode bytes => return [← (builder ctx).decode bytes]

end Pool

end RowFilter
