import RowFilter.Config.Basic
import RowFilter.Grammar.Token
import RowFilter.Schema.Basic
import RowFilter.Value.Basic

/-!
# Errors

Everything that an operation on filters can fail with, as causes; the wording of each is in one
function. Errors fall into six classes, by which callers route them.
-/

namespace RowFilter

/-- What is wrong with a filter text, a path, or a chain of names. -/
inductive Flaw where
  | unexpectedCharacter (c : Char)
  | noProperty
  | expectedProperty (found : Lexeme)
  | expectedOperand (found : Lexeme)
  | expectedParameter (op : RelOp) (found : Lexeme)
  | expectedOperator (found : Lexeme)
  | trailing (found : Lexeme)
  | missingParenthesis
  | strayParenthesis
  | unterminatedExistence
  | existenceWithoutRelation
  | existenceOverClosed
  | unknownProperty (entity : String) (property : String)
  | outerCompared (property : String)
  | outerScalar (property : String)
  | manyTraversed (property : String)
  | scalarTraversed (property : String)
  | manyCompared (property : String)
  | oneCompared (property : String)
  | oneTested (property : String)
  | scalarTested (property : String)
deriving DecidableEq, Repr

/-- The wording of a flaw. -/
def Flaw.message : Flaw → String
  | .unexpectedCharacter c => "unexpected character '" ++ String.singleton c ++ "'"
  | .noProperty => "expected a property name"
  | .expectedProperty found => "expected a property name, found " ++ found.describe
  | .expectedOperand found =>
    "unexpected " ++ found.describe ++ "; expected a property or '('"
  | .expectedParameter op found =>
    "expected '?' after '" ++ op.symbol ++ "', found " ++ found.describe
  | .expectedOperator found => "expected a relational operator, found " ++ found.describe
  | .trailing found => "unexpected " ++ found.describe ++ " after filter"
  | .missingParenthesis => "unbalanced parentheses: missing ')'"
  | .strayParenthesis => "unbalanced parentheses: unexpected ')'"
  | .unterminatedExistence => "unterminated existence test: missing ')'"
  | .existenceWithoutRelation => "existence test requires a relation"
  | .existenceOverClosed => "existence test over a closed sub-filter"
  | .unknownProperty entity property => s!"entity '{entity}' has no property '{property}'"
  | .outerCompared property =>
    s!"outer join parentheses cannot wrap the compared property '{property}'"
  | .outerScalar property =>
    s!"outer join parentheses apply only to relations; '{property}' is not a relation"
  | .manyTraversed property =>
    s!"one-to-many relation '{property}' can only be the final hop of an existence test"
  | .scalarTraversed property =>
    s!"property '{property}' is not a relation and cannot be traversed"
  | .manyCompared property =>
    s!"one-to-many relation '{property}' requires an existence test, e.g. '{property}()'"
  | .oneCompared property =>
    s!"relation '{property}' cannot be compared directly; compare one of its properties"
  | .oneTested property =>
    s!"existence test requires a one-to-many relation; '{property}' is many-to-one"
  | .scalarTested property =>
    s!"existence test requires a one-to-many relation; '{property}' is not a relation"

/-- Why a value is no constant for a property. -/
inductive Misfit where
  | relation
  | kind (value : Value) (expected : ScalarKind)
deriving DecidableEq

/-- The wording of a misfit. -/
def Misfit.message : Misfit → String
  | .relation => "relation properties cannot hold constants"
  | .kind value expected =>
    "cannot convert " ++ value.label ++ " " ++ value.render ++ " to " ++ expected.label

/-- What can be wrong with supplying or reading values. Parameters are given by their text. -/
inductive BindingError where
  | tooManyValues (slots : Nat)
  | blankSlots (remaining : Nat)
  | unknownParameter (leaf : String)
  | unbound (leaf : String)
deriving DecidableEq, Repr

/-- The wording of a binding error. -/
def BindingError.message : BindingError → String
  | .tooManyValues slots => s!"too many values supplied: filter has {slots} parameter slots"
  | .blankSlots remaining => s!"{remaining} parameter slots are still blank"
  | .unknownParameter leaf => s!"parameter '{leaf}' does not belong to the bound filter"
  | .unbound leaf => s!"parameter '{leaf}' is not bound; bind the filter first"

/-- What can be wrong with encoded bytes. -/
inductive WireError where
  /-- The bytes are not the encoding of anything of the expected form. -/
  | unreadable
  | oversized
  | emptyJunction
deriving DecidableEq, Repr

/-- The wording of a wire error. -/
def WireError.message : WireError → String
  | .unreadable => "unreadable payload"
  | .oversized => "payload exceeds maximum allowed size"
  | .emptyJunction => "empty junction in encoded filter"

/-- Everything that an operation on filters can fail with. -/
inductive FilterError where
  /-- A flaw in a text, with the bytes of the text it is about. -/
  | malformed (flaw : Flaw) (span : Span) (text : String)
  /-- A name of a single character outside ASCII, which is refused without a report. -/
  | loneCharacter
  | binding (e : BindingError)
  | unsupportedConstant (property : String) (misfit : Misfit)
  | schema (e : SchemaError)
  | tooManyClauses (limit : Nat)
  | tooDeep (limit : Nat)
  | wire (e : WireError)
  | config (e : ConfigError)
deriving DecidableEq

/-- The classes by which callers route errors. -/
inductive ErrorClass where
  | malformed
  | precondition
  | unsupported
  | schema
  | limit
  | serialize
deriving DecidableEq, Repr

/-- The name of a class. -/
def ErrorClass.label : ErrorClass → String
  | .malformed => "malformed"
  | .precondition => "precondition"
  | .unsupported => "unsupported"
  | .schema => "schema"
  | .limit => "limit"
  | .serialize => "serialize"

namespace FilterError

/-- The class of an error. -/
def errorClass : FilterError → ErrorClass
  | .malformed _ _ _ => .malformed
  | .loneCharacter => .malformed
  | .binding _ => .precondition
  | .unsupportedConstant _ _ => .unsupported
  | .schema _ => .schema
  | .tooManyClauses _ => .limit
  | .tooDeep _ => .limit
  | .wire _ => .serialize
  | .config _ => .schema

/-- The wording of an error. The text of a malformed filter is shown as it is. -/
def message : FilterError → String
  | .malformed flaw span text =>
    "malformed filter: " ++ flaw.message ++ " at " ++ span.render ++ " in \"" ++ text ++ "\""
  | .loneCharacter => "a name of a single character outside ASCII cannot be read"
  | .binding e => e.message
  | .unsupportedConstant property misfit =>
    "unsupported constant for property '" ++ property ++ "': " ++ misfit.message
  | .schema e => e.message
  | .tooManyClauses limit => s!"normal form rewrite exceeds the limit of {limit} clauses"
  | .tooDeep limit => s!"filter nesting exceeds the limit of {limit} levels"
  | .wire e => "deserialize error: " ++ e.message
  | .config e => e.message

/-- The wording of an error after its class. -/
def report (e : FilterError) : String :=
  e.errorClass.label ++ ": " ++ e.message

/-- The bytes that a malformed text is reported at. -/
def span? : FilterError → Option Span
  | .malformed _ span _ => some span
  | _ => none

end FilterError

instance : Coe SchemaError FilterError := ⟨.schema⟩

instance : Coe BindingError FilterError := ⟨.binding⟩

instance : Coe WireError FilterError := ⟨.wire⟩

instance : Coe ConfigError FilterError := ⟨.config⟩

end RowFilter
