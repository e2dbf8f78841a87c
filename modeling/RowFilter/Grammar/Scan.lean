import RowFilter.Error
import RowFilter.Text.CharacterClass

/-!
# From text to tokens

Text is read from left to right. Blanks separate tokens. A name begins with a letter, an
underscore or a dollar sign and takes in all letters, numbers, underscores and dollar signs that
follow; `!`, `<` and `>` take in an equals sign right after them. Every other character is either
a token of its own or refused.

The scan walks the characters one by one. When a token begins, the number of characters that
still belong to it is known, and the walk passes over them.
-/

namespace RowFilter.Grammar

open RowFilter.Text

/-- A character that a name may begin with. -/
def beginsName (c : Char) : Bool :=
  isAlphabetic c || c == '_' || c == '$'

/-- A character that a name may go on with. -/
def continuesName (c : Char) : Bool :=
  isAlphabetic c || isNumeric c || c == '_' || c == '$'

theorem continuesName_of_beginsName {c : Char} (h : beginsName c = true) :
    continuesName c = true := by
  simp only [beginsName, Bool.or_eq_true] at h
  simp only [continuesName, Bool.or_eq_true]
  rcases h with (h | h) | h <;> simp [h]

/-- An operator that an equals sign right after it extends. -/
def extensible (rest : List Char) (short long : Lexeme) : Lexeme × Nat :=
  if rest.head? = some '=' then (long, 1) else (short, 0)

/-- The lexeme that begins with `c`, and how many of the characters after `c` belong to it. -/
def lexeme? (c : Char) (rest : List Char) : Option (Lexeme × Nat) :=
  match c with
  | '.' => some (.dot, 0)
  | '(' => some (.leftParen, 0)
  | ')' => some (.rightParen, 0)
  | '&' => some (.and, 0)
  | '|' => some (.or, 0)
  | '?' => some (.param, 0)
  | '=' => some (.op .eq, 0)
  | '!' => some (extensible rest .not (.op .ne))
  | '<' => some (extensible rest (.op .lt) (.op .le))
  | '>' => some (extensible rest (.op .gt) (.op .ge))
  | c =>
    if beginsName c then
      let tail := rest.takeWhile continuesName
      some (.name (String.ofList (c :: tail)), tail.length)
    else none

/-- The number of bytes of the characters. -/
def byteLength : List Char → Nat
  | [] => 0
  | c :: rest => c.utf8Size + byteLength rest

/-- A name that is a single character outside ASCII. -/
def isLoneName (c : Char) (more : Nat) : Bool :=
  beginsName c && more == 0 && 1 < c.utf8Size

/-- Walks on from offset `pos`: passes over `skip` characters, then reads the rest, with the
tokens read so far in reverse order. -/
def scanFrom (text : String) : (skip pos : Nat) → (read : List Token) → List Char →
    Except FilterError (List Token)
  | _, _, read, [] => .ok read.reverse
  | skip + 1, pos, read, c :: rest => scanFrom text skip (pos + c.utf8Size) read rest
  | 0, pos, read, c :: rest =>
    let next := pos + c.utf8Size
    if isBlank c then scanFrom text 0 next read rest
    else
      match lexeme? c rest with
      | none => .error (.malformed (.unexpectedCharacter c) ⟨pos, next⟩ text)
      | some (lexeme, more) =>
        if isLoneName c more then .error .loneCharacter
        else
          scanFrom text more next (⟨lexeme, ⟨pos, next + byteLength (rest.take more)⟩⟩ :: read) rest

/-- The tokens of a text, without the end of the text. -/
def scan (text : String) : Except FilterError (List Token) :=
  scanFrom text 0 0 [] text.toList

end RowFilter.Grammar
