import RowFilter.Value.Coerce
import RowFilter.Grammar.Reader

/-!
# Building filters from text and from parts

A filter over an entity is read from its text, or built from a path to a property: a comparison
with a parameter or with a constant, or an existence test over a filter. An unknown entity is
reported before anything is read.
-/

namespace RowFilter

open RowFilter.Grammar

/-- The chain that the path spells, for some use. -/
def Schema.chainFor (schema : Schema) (e : Entity) (use : ChainUse) (path : String) :
    Except FilterError Resolved := do
  let tokens ← scan path
  wholeChain schema path e use tokens

namespace Builder

variable {m : Type → Type} {φ : Type} [Monad m] [MonadExcept FilterError m]

/-- The entity of that name. -/
def entity (b : Builder m φ) (name : String) : m Entity :=
  MonadExcept.ofExcept (b.schema.lookup name)

/-- The filter over `e` that the text spells. -/
def parseOver (b : Builder m φ) (e : Entity) (text : String) : m φ := do
  let tokens ← MonadExcept.ofExcept (scan text)
  wholeFilter ⟨b, text⟩ e tokens

/-- The comparison of the property at `path` with a parameter. -/
def comparison (b : Builder m φ) (entity : String) (path : String) (op : RelOp) : m φ := do
  let e ← b.entity entity
  let resolved ← MonadExcept.ofExcept (b.schema.chainFor e .comparison path)
  b.make (.compare ⟨e.name, ⟨resolved.chain, op⟩, .unbound⟩)

/-- The comparison of the property at `path` with a constant, which is coerced to the
property's type. -/
def constant (b : Builder m φ) (entity : String) (path : String) (op : RelOp) (value : Value) :
    m φ := do
  let e ← b.entity entity
  let resolved ← MonadExcept.ofExcept (b.schema.chainFor e .comparison path)
  let constant ← MonadExcept.ofExcept (resolved.chain.coerce value)
  b.make (.compare ⟨e.name, ⟨resolved.chain, op⟩, .constant constant⟩)

/-- A filter inside an existence test must be about the rows at the end of the chain. -/
def matchTarget (b : Builder m φ) (target : Option Entity) (sub : φ) : m Unit :=
  match target with
  | some t =>
    if t.name = b.entityOf sub then pure ()
    else throw (.schema (.entityMismatch t.name (b.entityOf sub)))
  | none => pure ()

/-- The test for rows at the end of `path` that meet `sub`, or, negated, for their absence. -/
def rowsAt (b : Builder m φ) (entity : String) (path : String) (sub : φ) (negated : Bool) :
    m φ := do
  let e ← b.entity entity
  let resolved ← MonadExcept.ofExcept (b.schema.chainFor e .existence path)
  b.matchTarget resolved.target sub
  b.existence e.name resolved.chain negated sub

/-- The open filter over the named entity. -/
def opened (b : Builder m φ) (entity : String) : m φ := do
  let e ← b.entity entity
  b.make (.opened e.name)

/-- The closed filter over the named entity. -/
def closed (b : Builder m φ) (entity : String) : m φ := do
  let e ← b.entity entity
  b.make (.closed e.name)

end Builder

namespace Context

/-- The tree over the named entity that the text spells. -/
def parse (ctx : Context) (entity : String) (text : String) : Except FilterError Filter := do
  let e ← ctx.entity entity
  ctx.builder.parseOver e text

/-- The chain from the named entity that the text spells; its final hop may be anything. -/
def parseChain (ctx : Context) (entity : String) (text : String) : Except FilterError Chain := do
  let e ← ctx.entity entity
  return (← ctx.schema.chainFor e .standalone text).chain

end Context

end RowFilter
