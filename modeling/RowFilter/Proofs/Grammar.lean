import RowFilter.Filter.Outline

/-!
# The grammar of filter text

    filter  := and ('|' and)*
    and     := operand ('&' operand)*
    operand := '!' operand | '(' filter ')' | chain op '?' | chain '(' [filter] ')'
    chain   := segment ('.' segment)*
    segment := name | '(' name ')'

A phrase is a derivation in this grammar. How it is spelled, how far it nests, and which filter
it denotes over an entity are functions of the phrase; none of them mentions a reader, positions
in a text, or errors.
-/

namespace RowFilter

/-! ## Chains -/

/-- The words of a segment. -/
def HopName.lexemes (h : HopName) : List Lexeme :=
  if h.outer then [.leftParen, .name h.property, .rightParen] else [.name h.property]

namespace Grammar

/-- Segments with dots between them. -/
structure Path where
  first : HopName
  rest : List HopName
deriving DecidableEq

namespace Path

/-- The segments in order. -/
def names (path : Path) : List HopName :=
  path.first :: path.rest

/-- Segments, each behind a dot. -/
def tailLexemes (rest : List HopName) : List Lexeme :=
  rest.flatMap fun h => .dot :: h.lexemes

/-- The words of the path. -/
def lexemes (path : Path) : List Lexeme :=
  path.first.lexemes ++ tailLexemes path.rest

end Path

/-- The chain that the path names for some use, if it names one. -/
def Path.resolve? (path : Path) (schema : Schema) (e : Entity) (use : ChainUse) :
    Option Resolved :=
  (schema.chainOf e path.names use).toOption

/-! ## Phrases -/

/-- What is derived: an operand, or a run of parts with the sign of a junction between them. -/
inductive Category where
  | operand
  | run (kind : Junction)
deriving DecidableEq

namespace Category

/-- What a run is made of: conjunctions of operands, alternatives of conjunctions. -/
def part : Junction → Category
  | .and => .operand
  | .or => .run .and

/-- A filter is a run of alternatives. -/
abbrev filter : Category :=
  .run .or

theorem part_ne_filter (kind : Junction) : part kind ≠ filter := by
  cases kind <;> decide

theorem operand_ne_filter : operand ≠ filter := by
  decide

end Category

/-- A derivation. Runs grow to the right, so they group to the left. -/
inductive Phrase : Category → Type where
  | single (kind : Junction) (p : Phrase (.part kind)) : Phrase (.run kind)
  | more (kind : Junction) (before : Phrase (.run kind)) (next : Phrase (.part kind)) :
    Phrase (.run kind)
  | not (p : Phrase .operand) : Phrase .operand
  | group (p : Phrase .filter) : Phrase .operand
  | comparison (path : Path) (op : RelOp) : Phrase .operand
  /-- An existence test without demands. -/
  | anyRow (path : Path) : Phrase .operand
  | rows (path : Path) (body : Phrase .filter) : Phrase .operand

namespace Phrase

/-- The words of the phrase. -/
def lexemes {c : Category} : Phrase c → List Lexeme
  | single _ p => p.lexemes
  | more kind before next => before.lexemes ++ signOf kind :: next.lexemes
  | not p => .not :: p.lexemes
  | group p => .leftParen :: p.lexemes ++ [.rightParen]
  | comparison path op => path.lexemes ++ [.op op, .param]
  | anyRow path => path.lexemes ++ [.leftParen, .rightParen]
  | rows path body => path.lexemes ++ .leftParen :: body.lexemes ++ [.rightParen]

/-- The greatest number of complements, groups and bodies of existence tests that enclose one
another. -/
def nesting {c : Category} : Phrase c → Nat
  | single _ p => p.nesting
  | more _ before next => max before.nesting next.nesting
  | not p => p.nesting + 1
  | group p => p.nesting + 1
  | comparison _ _ => 0
  | anyRow _ => 0
  | rows _ body => body.nesting + 1

/-- The filter that the phrase denotes over an entity, if all its paths resolve. The body of an
existence test is about the entity at the end of the path. -/
def denote (schema : Schema) {c : Category} : Phrase c → Entity → Option Filter
  | single _ p, e => p.denote schema e
  | more kind before next, e => do
    let left ← before.denote schema e
    let right ← next.denote schema e
    return .junction e.name kind left right
  | not p, e => (p.denote schema e).map Filter.complement
  | group p, e => p.denote schema e
  | comparison path op, e => do
    let resolved ← path.resolve? schema e .comparison
    return .compare ⟨e.name, ⟨resolved.chain, op⟩, .unbound⟩
  | anyRow path, e => do
    let resolved ← path.resolve? schema e .existence
    let target ← resolved.target
    return .existence e.name resolved.chain false (.opened target.name)
  | rows path body, e => do
    let resolved ← path.resolve? schema e .existence
    let target ← resolved.target
    let sub ← body.denote schema target
    return .existence e.name resolved.chain false sub

section Denotation

variable {schema : Schema} {e : Entity} {f : Filter}

theorem denote_more {kind : Junction} {before : Phrase (.run kind)} {next : Phrase (.part kind)} :
    (more kind before next).denote schema e = some f ↔
      ∃ left right, before.denote schema e = some left ∧ next.denote schema e = some right ∧
        .junction e.name kind left right = f := by
  simp [denote, Option.bind_eq_some_iff]

theorem denote_not {p : Phrase .operand} :
    (not p).denote schema e = some f ↔ ∃ g, p.denote schema e = some g ∧ g.complement = f := by
  simp [denote]

theorem denote_comparison {path : Path} {op : RelOp} :
    (comparison path op).denote schema e = some f ↔
      ∃ resolved, path.resolve? schema e .comparison = some resolved ∧
        .compare ⟨e.name, ⟨resolved.chain, op⟩, .unbound⟩ = f := by
  simp [denote, Option.bind_eq_some_iff]

theorem denote_anyRow {path : Path} :
    (anyRow path).denote schema e = some f ↔
      ∃ resolved target, path.resolve? schema e .existence = some resolved ∧
        resolved.target = some target ∧
        .existence e.name resolved.chain false (.opened target.name) = f := by
  simp [denote, Option.bind_eq_some_iff]

theorem denote_rows {path : Path} {body : Phrase .filter} :
    (rows path body).denote schema e = some f ↔
      ∃ resolved target sub, path.resolve? schema e .existence = some resolved ∧
        resolved.target = some target ∧ body.denote schema target = some sub ∧
        .existence e.name resolved.chain false sub = f := by
  simp [denote, Option.bind_eq_some_iff]

end Denotation

end Phrase

/-- The words spell the filter over the entity: they are the words of a phrase that denotes it
and nests at most `room` levels, and the filter is not too deep. -/
def Spells (ctx : Context) (room : Nat) (c : Category) (e : Entity) (words : List Lexeme)
    (f : Filter) : Prop :=
  ∃ p : Phrase c, p.lexemes = words ∧ p.denote ctx.schema e = some f ∧ p.nesting ≤ room ∧
    f.depth ≤ ctx.config.maxDepth

end Grammar

end RowFilter
