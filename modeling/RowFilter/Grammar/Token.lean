import RowFilter.RelOp

/-!
# Tokens

The words of filter text: names, punctuation, operators, and the end of the text. A token is a
lexeme with the bytes it was read from, a half-open range of byte offsets as errors report it.
-/

namespace RowFilter

/-! ## Spans -/

/-- The bytes from `start` up to, and without, `stop`. -/
structure Span where
  start : Nat
  stop : Nat
deriving DecidableEq, Repr, Inhabited

namespace Span

/-- The empty span at the beginning of a text. -/
def zero : Span := ⟨0, 0⟩

/-- The empty span at offset `n`. -/
def point (n : Nat) : Span := ⟨n, n⟩

/-- The least span that covers both. -/
def merge (a b : Span) : Span :=
  ⟨min a.start b.start, max a.stop b.stop⟩

/-- Both ends with two dots between them. -/
def render (s : Span) : String :=
  s!"{s.start}..{s.stop}"

end Span

/-! ## Words -/

/-- A word of filter text. -/
inductive Lexeme where
  | name (s : String)
  | dot
  | leftParen
  | rightParen
  | and
  | or
  | not
  | param
  | op (o : RelOp)
  /-- The end of the text. -/
  | stop
deriving DecidableEq, Repr

namespace Lexeme

/-- The lexeme as it is written. -/
def spelling : Lexeme → String
  | .name s => s
  | .dot => "."
  | .leftParen => "("
  | .rightParen => ")"
  | .and => "&"
  | .or => "|"
  | .not => "!"
  | .param => "?"
  | .op o => o.symbol
  | .stop => ""

/-- The lexeme as messages mention it. -/
def describe : Lexeme → String
  | .stop => "end of filter"
  | l => "'" ++ l.spelling ++ "'"

end Lexeme

/-- A lexeme and where it stands. -/
structure Token where
  lexeme : Lexeme
  span : Span
deriving DecidableEq, Repr

namespace Token

/-- The token behind the last one of a text of that many bytes. -/
def stopAt (size : Nat) : Token :=
  ⟨.stop, .point size⟩

/-- The next token, which is the end of the text if none is left. -/
def peek (size : Nat) (tokens : List Token) : Token :=
  tokens.headD (stopAt size)

/-- The spellings with single spaces between them: one text for all texts that differ in blanks
only. -/
def text (tokens : List Token) : String :=
  " ".intercalate (tokens.map fun t => t.lexeme.spelling)

end Token

end RowFilter
