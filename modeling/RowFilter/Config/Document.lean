import RowFilter.Config.Basic

/-!
# Configuration documents

A configuration can be given as a document of settings, one to a line, each at most once, in any
order. What is not set keeps its default.

    parse_cache = false
    max_normal_form_clauses = 1_024   # a comment
    "max_filter_depth" = 0x40

The form is that of TOML 1.1, of which only this much can be a configuration: plain and quoted
keys, truth values, integers from zero to `2 ^ 64 - 1`, comments and empty lines. Every other
document is refused as a whole, so the reader keeps no account of where it stopped.
-/

namespace RowFilter.Config.Document

/-! ## Characters -/

/-- A space or a tab. -/
def isSpace (c : Char) : Bool :=
  c = ' ' || c = '\t'

/-- A character that may stand in a comment or in quotes: a tab, or anything that is no control
character. -/
def isTextual (c : Char) : Bool :=
  c = '\t' || (0x20 ≤ c.toNat && c.toNat ≠ 0x7f)

/-- A character of a key without quotes. -/
def isPlainKey (c : Char) : Bool :=
  c.isAlphanum || c = '_' || c = '-'

/-- The digit in some base up to sixteen that the character stands for. -/
def digit? (base : Nat) (c : Char) : Option Nat :=
  let value :=
    if c.isDigit then c.toNat - '0'.toNat
    else if 'a' ≤ c ∧ c ≤ 'f' then c.toNat - 'a'.toNat + 10
    else if 'A' ≤ c ∧ c ≤ 'F' then c.toNat - 'A'.toNat + 10
    else base
  if value < base then some value else none

/-! ## Lines -/

/-- The lines of the document, given the characters of the current one in reverse order. A line
feed ends a line, with or without a carriage return in front of it. -/
def linesFrom (line : List Char) : List Char → List (List Char)
  | [] => [line.reverse]
  | '\n' :: rest => line.reverse :: linesFrom [] rest
  | '\r' :: '\n' :: rest => line.reverse :: linesFrom [] rest
  | c :: rest => linesFrom (c :: line) rest

/-- The lines of the document, which may begin with a byte order mark. -/
def lines (document : String) : List (List Char) :=
  match document.toList with
  | '\uFEFF' :: rest => linesFrom [] rest
  | cs => linesFrom [] cs

/-- Nothing but spaces and a comment is left of the line. -/
def isFinished (line : List Char) : Bool :=
  match line.dropWhile isSpace with
  | [] => true
  | '#' :: comment => comment.all isTextual
  | _ => false

/-! ## Keys -/

/-- The character that a backslash and one letter stand for. -/
def escaped? : Char → Option Char
  | 'b' => some '\x08'
  | 't' => some '\t'
  | 'n' => some '\n'
  | 'f' => some '\x0c'
  | 'r' => some '\r'
  | 'e' => some '\x1b'
  | '"' => some '"'
  | '\\' => some '\\'
  | _ => none

/-- The character whose code point the hexadecimal digits spell. -/
def codePoint? (digits : List Char) : Option Char := do
  let n ← digits.foldlM (fun n c => (digit? 16 c).map (n * 16 + ·)) 0
  if n.isValidChar then some (Char.ofNat n) else none

/-- The key up to the double quote that ends it, and what follows; `read` holds the characters
read so far in reverse order. -/
def quotedKeyFrom (read : List Char) : List Char → Option (List Char × List Char)
  | '"' :: rest => some (read.reverse, rest)
  | '\\' :: 'x' :: a :: b :: rest =>
    match codePoint? [a, b] with
    | some x => quotedKeyFrom (x :: read) rest
    | none => none
  | '\\' :: 'u' :: a :: b :: c :: d :: rest =>
    match codePoint? [a, b, c, d] with
    | some x => quotedKeyFrom (x :: read) rest
    | none => none
  | '\\' :: 'U' :: a :: b :: c :: d :: e :: f :: g :: h :: rest =>
    match codePoint? [a, b, c, d, e, f, g, h] with
    | some x => quotedKeyFrom (x :: read) rest
    | none => none
  | '\\' :: c :: rest =>
    match escaped? c with
    | some x => quotedKeyFrom (x :: read) rest
    | none => none
  | c :: rest => if c ≠ '\\' ∧ isTextual c then quotedKeyFrom (c :: read) rest else none
  | [] => none

/-- The key between apostrophes, in which a backslash stands for itself, and what follows. -/
def literalKey (cs : List Char) : Option (List Char × List Char) :=
  let key := cs.takeWhile (· ≠ '\x27')
  match cs.drop key.length with
  | '\x27' :: rest => if key.all isTextual then some (key, rest) else none
  | _ => none

/-- The key at the beginning of a line, and what follows. -/
def key? : List Char → Option (List Char × List Char)
  | '"' :: rest => quotedKeyFrom [] rest
  | '\x27' :: rest => literalKey rest
  | cs =>
    let key := cs.takeWhile isPlainKey
    if key.isEmpty then none else some (key, cs.drop key.length)

/-! ## Values -/

/-- The number spelled on by these digits, after `n`. A single underscore may stand between two
digits. -/
def digitsFrom (base n : Nat) : List Char → Option Nat
  | [] => some n
  | '_' :: c :: rest =>
    match digit? base c with
    | some d => digitsFrom base (n * base + d) rest
    | none => none
  | c :: rest =>
    match digit? base c with
    | some d => digitsFrom base (n * base + d) rest
    | none => none

/-- The number that one or more digits spell. -/
def digits? (base : Nat) : List Char → Option Nat
  | [] => none
  | c :: rest => (digit? base c).bind fun d => digitsFrom base d rest

/-- The number that decimal digits without a leading zero spell. -/
def decimal? : List Char → Option Nat
  | ['0'] => some 0
  | '0' :: _ => none
  | cs => digits? 10 cs

/-- The number that a word spells: in decimal with or without a sign, where only zero may be
negative, or without a sign in another base. -/
def natural? : List Char → Option Nat
  | '0' :: 'x' :: rest => digits? 16 rest
  | '0' :: 'o' :: rest => digits? 8 rest
  | '0' :: 'b' :: rest => digits? 2 rest
  | '+' :: rest => decimal? rest
  | '-' :: rest => (decimal? rest).filter (· == 0)
  | cs => decimal? cs

/-- The number that a word spells, if it fits sixty-four bits. -/
def count? (word : List Char) : Option Nat :=
  (natural? word).filter (· < UInt64.size)

/-- The truth value that a word names. -/
def truth? (word : List Char) : Option Bool :=
  if word = ['t', 'r', 'u', 'e'] then some true
  else if word = ['f', 'a', 'l', 's', 'e'] then some false
  else none

/-! ## Settings -/

/-- What a document sets. -/
structure Draft where
  parseCache : Option Bool := none
  maxClauses : Option Nat := none
  maxDepth : Option Nat := none
deriving DecidableEq, Repr

/-- The draft with one more setting; none if the key is unknown or set before, or if the word is
no value for it. -/
def Draft.set? (draft : Draft) (key : String) (word : List Char) : Option Draft :=
  match key, draft with
  | "parse_cache", ⟨none, clauses, depth⟩ =>
    (truth? word).map fun b => ⟨some b, clauses, depth⟩
  | "max_normal_form_clauses", ⟨cache, none, depth⟩ =>
    (count? word).map fun n => ⟨cache, some n, depth⟩
  | "max_filter_depth", ⟨cache, clauses, none⟩ =>
    (count? word).map fun n => ⟨cache, clauses, some n⟩
  | _, _ => none

/-- The draft with what a line sets, if it sets anything. -/
def Draft.addLine? (draft : Draft) (line : List Char) : Option Draft := do
  if isFinished line then return draft
  let (key, afterKey) ← key? (line.dropWhile isSpace)
  match afterKey.dropWhile isSpace with
  | '=' :: rest =>
    let value := rest.dropWhile isSpace
    let word := value.takeWhile fun c => !isSpace c && c ≠ '#'
    if isFinished (value.drop word.length) then draft.set? (String.ofList key) word else none
  | _ => none

/-- What the document sets, if it is one. -/
def draft? (document : String) : Option Draft :=
  (lines document).foldlM Draft.addLine? {}

end RowFilter.Config.Document

namespace RowFilter.Config

/-- The configuration that a document gives. -/
def ofDocument (document : String) : Except ConfigError Config :=
  match Document.draft? document with
  | none => .error .unreadable
  | some draft =>
    Config.of (draft.parseCache.getD standard.parseCache)
      (draft.maxClauses.getD standard.maxClauses) (draft.maxDepth.getD standard.maxDepth)

end RowFilter.Config
