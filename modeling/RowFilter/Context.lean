import RowFilter.Config.Basic
import RowFilter.Error
import RowFilter.Filter.Render

/-!
# Contexts

A context is a schema with a configuration: what filters are built against.
-/

namespace RowFilter

/-- The entity of that name in the schema. -/
def Schema.lookup (schema : Schema) (name : String) : Except FilterError Entity :=
  match schema.entity name with
  | .ok e => .ok e
  | .error e => .error (.schema e)

/-- What filters are built against. -/
structure Context where
  schema : Schema
  config : Config

namespace Context

/-- The entity of that name in the schema. -/
def entity (ctx : Context) (name : String) : Except FilterError Entity :=
  ctx.schema.lookup name

end Context

/-- The error about an existence test over the closed filter; it quotes the test as it would be
written. -/
def Chain.overClosed (c : Chain) : FilterError :=
  let text := c.render ++ "(closed)"
  .malformed .existenceOverClosed ⟨0, text.utf8ByteSize⟩ text

end RowFilter
