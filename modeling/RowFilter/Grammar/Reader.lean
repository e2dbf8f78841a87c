import RowFilter.Builder
import RowFilter.Chain.Resolve
import RowFilter.Grammar.Scan
import RowFilter.Reading

/-!
# From tokens to filters

    filter  := and ('|' and)*
    and     := operand ('&' operand)*
    operand := '!' operand | '(' filter ')' | chain op '?' | chain '(' [filter] ')'
    chain   := segment ('.' segment)*
    segment := name | '(' name ')'

A single name in parentheses is always a segment: it marks an outer join and would be no filter
of its own. Three things nest, each of them inside an operand: `!`, a group, and the filter of an
existence test. Operands are read with the number of levels that may still be entered, so the
reader recurs on that number and on nothing else.

The filter is built while it is read, by the steps of a builder. Names are resolved as soon as
their chain and what follows it are known, and a junction is refused as soon as it grows too
deep, so of two mistakes the one that stands further left is reported.
-/

namespace RowFilter.Grammar

/-- A text, and the builder of what is read from it. -/
structure Source (m : Type → Type) (φ : Type) where
  builder : Builder m φ
  text : String

variable {m : Type → Type} {φ : Type}

/-- The next token, or the end of the text. -/
def peekIn (text : String) (tokens : List Token) : Token :=
  Token.peek text.utf8ByteSize tokens

namespace Source

/-- The error about some bytes of the text. -/
def malformed (src : Source m φ) (flaw : Flaw) (span : Span) : FilterError :=
  .malformed flaw span src.text

/-- The chain that the segments name. -/
def resolve (src : Source m φ) (e : Entity) (segments : List Segment) (use : ChainUse) :
    Except FilterError Resolved :=
  src.builder.schema.resolve e segments use src.text

end Source

/-- Takes something off the front of the tokens. -/
abbrev TokenReader (m : Type → Type) (α : Type) : Type :=
  (tokens : List Token) → m (Reading α tokens)

/-- Takes something off the front of the tokens, without building any filter. -/
abbrev WordReader (α : Type) : Type :=
  TokenReader (Except FilterError) α

/-! ## Chains -/

/-- The tokens begin with a name in parentheses. -/
def beginsOuter : List Token → Bool
  | ⟨.leftParen, _⟩ :: ⟨.name _, _⟩ :: ⟨.rightParen, _⟩ :: _ => true
  | _ => false

/-- A name, or a name in parentheses. -/
def segment (text : String) : WordReader Segment
  | ⟨.name n, span⟩ :: rest => .ok ⟨⟨n, false, span⟩, rest, Nat.lt_succ_self _⟩
  | ⟨.leftParen, _⟩ :: ⟨.name n, span⟩ :: ⟨.rightParen, _⟩ :: rest =>
    .ok ⟨⟨n, true, span⟩, rest, by simp only [List.length_cons]; omega⟩
  | tokens =>
    let found := peekIn text tokens
    .error (.malformed (.expectedProperty found.lexeme) found.span text)

/-- Reads on after the segments read so far, given in reverse order: another segment, as often
as a dot follows. -/
def segmentsFrom (text : String) {input : List Token} (read : List Segment)
    (tokens : List Token) (h : tokens.length < input.length) :
    Except FilterError (Reading (List Segment) input) :=
  match tokens, h with
  | [], h => .ok ⟨read.reverse, [], h⟩
  | t :: rest, h =>
    if t.lexeme = .dot then do
      let s ← segment text rest
      segmentsFrom text (s.value :: read) s.rest
        (Nat.lt_trans s.shorter (Nat.lt_trans (Nat.lt_succ_self _) h))
    else .ok ⟨read.reverse, t :: rest, h⟩
termination_by tokens.length
decreasing_by exact Nat.lt_trans s.shorter (Nat.lt_succ_self _)

/-- Segments with dots between them. -/
def segments (text : String) : WordReader (List Segment) := fun tokens => do
  let s ← segment text tokens
  segmentsFrom text [s.value] s.rest s.shorter

/-- The bytes that the segments cover. -/
def spanOf : List Segment → Span
  | [] => .zero
  | s :: rest => rest.foldl (fun span s' => span.merge s'.span) s.span

/-! ## Single words -/

/-- The parameter behind an operator. -/
def parameter (text : String) (op : RelOp) : WordReader Unit
  | ⟨.param, _⟩ :: rest => .ok ⟨(), rest, Nat.lt_succ_self _⟩
  | tokens =>
    let found := peekIn text tokens
    .error (.malformed (.expectedParameter op found.lexeme) found.span text)

/-- The closing parenthesis for the opening one at `paren`. -/
def closing (text : String) (flaw : Flaw) (paren : Span) : WordReader Unit
  | ⟨.rightParen, _⟩ :: rest => .ok ⟨(), rest, Nat.lt_succ_self _⟩
  | tokens => .error (.malformed flaw (paren.merge (peekIn text tokens).span) text)

/-- Nothing is left to read. -/
def atEnd (text : String) : List Token → Except FilterError Unit
  | [] => .ok ()
  | ⟨.rightParen, span⟩ :: _ => .error (.malformed .strayParenthesis span text)
  | ⟨found, span⟩ :: _ => .error (.malformed (.trailing found) span text)

/-- The chain that the tokens spell. -/
def wholeChain (schema : Schema) (text : String) (e : Entity) (use : ChainUse)
    (tokens : List Token) : Except FilterError Resolved := do
  let names ← segments text tokens
  atEnd text names.rest
  schema.resolve e names.value use text

/-! ## Junctions -/

variable [Monad m] [MonadExcept FilterError m]

/-- The sign of a junction. -/
def signOf : Junction → Lexeme
  | .and => .and
  | .or => .or

/-- Reads on after `left`: another operand, as often as the sign of the junction follows. -/
def junctionFrom (src : Source m φ) (kind : Junction) (operand : TokenReader m φ)
    {input : List Token} (left : φ) (tokens : List Token)
    (h : tokens.length < input.length) : m (Reading φ input) :=
  match tokens, h with
  | [], h => pure ⟨left, [], h⟩
  | t :: rest, h =>
    if t.lexeme = signOf kind then do
      let right ← operand rest
      let f ← src.builder.join kind left right.value
      junctionFrom src kind operand f right.rest
        (Nat.lt_trans right.shorter (Nat.lt_trans (Nat.lt_succ_self _) h))
    else pure ⟨left, t :: rest, h⟩
termination_by tokens.length
decreasing_by exact Nat.lt_trans right.shorter (Nat.lt_succ_self _)

/-- A junction of operands, grouped to the left; a single operand is itself. -/
def junction (src : Source m φ) (kind : Junction) (operand : TokenReader m φ) :
    TokenReader m φ := fun tokens => do
  let left ← operand tokens
  junctionFrom src kind operand left.value left.rest left.shorter

/-- Alternatives of conjunctions of operands. -/
def filterOf (src : Source m φ) (operand : TokenReader m φ) : TokenReader m φ :=
  junction src .or (junction src .and operand)

/-! ## Operands -/

/-- The operands one level further in, by entity; none if no further level may be entered. -/
abbrev Deeper (m : Type → Type) (φ : Type) : Type :=
  Option (Entity → TokenReader m φ)

/-- The readers one level further in, or the error that there is no such level. -/
def enter (src : Source m φ) : Deeper m φ → m (Entity → TokenReader m φ)
  | some inner => pure inner
  | none => throw (.tooDeep src.builder.maxDepth)

/-- A filter over `e` one level further in, and the closing parenthesis for the opening one at
`paren`. -/
def enclosed (src : Source m φ) (deeper : Deeper m φ) (e : Entity) (flaw : Flaw) (paren : Span) :
    TokenReader m φ := fun tokens => do
  let inner ← enter src deeper
  let f ← filterOf src (inner e) tokens
  let close ← MonadExcept.ofExcept (closing src.text flaw paren f.rest)
  return (close.ofLonger f.shorter).map fun _ => f.value

/-- What an existence test demands of the rows of `target`, behind the opening parenthesis at
`paren`: nothing, or a filter. -/
def body (src : Source m φ) (deeper : Deeper m φ) (target : Entity) (paren : Span) :
    TokenReader m φ
  | [] => throw (src.malformed .unterminatedExistence (paren.merge (peekIn src.text []).span))
  | t :: rest =>
    if t.lexeme = .rightParen then do
      let sub ← src.builder.make (.opened target.name)
      return ⟨sub, rest, Nat.lt_succ_self _⟩
    else enclosed src deeper target .unterminatedExistence paren (t :: rest)

/-- The rest of a comparison or of an existence test, behind the segments of its chain. -/
def test (src : Source m φ) (deeper : Deeper m φ) (e : Entity) (names : List Segment) :
    TokenReader m φ := fun tokens =>
  match tokens with
  | ⟨.op op, _⟩ :: rest => do
    let param ← MonadExcept.ofExcept (parameter src.text op rest)
    let resolved ← MonadExcept.ofExcept (src.resolve e names .comparison)
    let f ← src.builder.make (.compare ⟨e.name, ⟨resolved.chain, op⟩, .unbound⟩)
    return (param.ofLonger (Nat.lt_succ_self _)).map fun _ => f
  | ⟨.leftParen, paren⟩ :: rest => do
    let resolved ← MonadExcept.ofExcept (src.resolve e names .existence)
    match resolved.target with
    | none => throw (src.malformed .existenceWithoutRelation (spanOf names))
    | some target =>
      let sub ← body src deeper target paren rest
      let f ← src.builder.existence e.name resolved.chain false sub.value
      return (sub.ofLonger (Nat.lt_succ_self _)).map fun _ => f
  | tokens => do
    let _ ← MonadExcept.ofExcept (src.resolve e names .comparison)
    let found := peekIn src.text tokens
    throw (src.malformed (.expectedOperator found.lexeme) found.span)

/-- A comparison or an existence test. -/
def tested (src : Source m φ) (deeper : Deeper m φ) (e : Entity) : TokenReader m φ :=
  fun tokens => do
    let names ← MonadExcept.ofExcept (segments src.text tokens)
    let f ← test src deeper e names.value names.rest
    return f.ofLonger names.shorter

/-- The complement of an operand, behind its sign. -/
def negation (src : Source m φ) (deeper : Deeper m φ) (e : Entity) : TokenReader m φ :=
  fun tokens => do
    let inner ← enter src deeper
    let f ← inner e tokens
    let c ← src.builder.complement f.value
    return f.map fun _ => c

/-- An operand, given the operands one level further in. -/
def operandOver (src : Source m φ) (deeper : Deeper m φ) (e : Entity) : TokenReader m φ
  | [] => throw (src.malformed (.expectedOperand .stop) (peekIn src.text []).span)
  | t :: rest =>
    match t.lexeme with
    | .not => do
      let f ← negation src deeper e rest
      return f.ofLonger (Nat.lt_succ_self _)
    | .leftParen =>
      if beginsOuter (t :: rest) then tested src deeper e (t :: rest)
      else do
        let f ← enclosed src deeper e .missingParenthesis t.span rest
        return f.ofLonger (Nat.lt_succ_self _)
    | .name _ => tested src deeper e (t :: rest)
    | found => throw (src.malformed (.expectedOperand found) t.span)

/-- An operand with `room` levels left to enter. -/
def operand (src : Source m φ) : (room : Nat) → Entity → TokenReader m φ
  | 0 => operandOver src none
  | room + 1 => operandOver src (some (operand src room))

/-! ## Whole texts -/

/-- The filter that the tokens spell. -/
def wholeFilter (src : Source m φ) (e : Entity) (tokens : List Token) : m φ := do
  let f ← filterOf src (operand src src.builder.maxDepth e) tokens
  MonadExcept.ofExcept (atEnd src.text f.rest)
  return f.value

end RowFilter.Grammar
