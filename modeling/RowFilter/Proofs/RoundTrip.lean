import RowFilter.Proofs.Sessions
import RowFilter.Proofs.Wording

/-!
# Written filters read back

The words of a written filter are those of a phrase which denotes the filter with the numbers of
its parameters left out, and which nests as far as the text does. A filter with a constant, the
open and the closed filter have words that no phrase has. So a text written from a filter is read
back as that filter, if it does not nest too far, and never as anything else.
-/

namespace RowFilter

open RowFilter.Grammar

variable {schema : Schema} {ctx : Context}

/-! ## What is kept of a filter in its text -/

/-- The parameter without its number. -/
def Operand.unnumbered : Operand → Operand
  | .bound _ => .unbound
  | o => o

theorem Operand.unnumbered_of_isParameter {o : Operand} (h : o.isParameter = true) :
    o.unnumbered = .unbound := by
  cases o with
  | constant v => exact nomatch h
  | unbound | bound => rfl

/-- Bound or not, parameters are written with one sign. -/
theorem Leaf.operandWord?_of_isParameter {l : Leaf} (h : l.operand.isParameter = true) :
    l.operandWord? = some .param := by
  unfold operandWord?
  cases hoperand : l.operand with
  | constant v =>
    rw [hoperand] at h
    exact nomatch h
  | unbound | bound => rfl

/-- The comparison with its parameter without a number. -/
def Leaf.unnumbered (l : Leaf) : Leaf :=
  { l with operand := l.operand.unnumbered }

namespace Filter

/-- The filter with all parameters without numbers. -/
def unnumbered : Filter → Filter
  | opened e => opened e
  | closed e => closed e
  | compare l => compare l.unnumbered
  | existence e c negated sub => existence e c negated sub.unnumbered
  | junction e kind left right => junction e kind left.unnumbered right.unnumbered

/-- Numbers add nothing to the depth. -/
@[simp] theorem depth_unnumbered (f : Filter) : f.unnumbered.depth = f.depth := by
  induction f with
  | opened | closed | compare => rfl
  | existence e c negated sub ih => exact congrArg (· + 1) ih
  | junction e kind left right ihl ihr => simp only [unnumbered, depth, ihl, ihr]

theorem unnumbered_of_unbound {f : Filter} (h : ∀ l ∈ f.leaves, l.operand = .unbound) :
    f.unnumbered = f := by
  induction f with
  | opened | closed => rfl
  | compare l =>
    obtain ⟨entity, shape, operand⟩ := l
    obtain rfl : operand = .unbound := h ⟨entity, shape, operand⟩ (by simp)
    rfl
  | existence e c negated sub ih => rw [unnumbered, ih h]
  | junction e kind left right ihl ihr =>
    rw [leaves_junction] at h
    rw [unnumbered, ihl fun l hl => h l (by simp [hl]), ihr fun l hl => h l (by simp [hl])]

/-- All operands are parameters. -/
def Parametric (f : Filter) : Prop :=
  ∀ l ∈ f.leaves, l.operand.isParameter = true

instance (f : Filter) : Decidable f.Parametric :=
  inferInstanceAs (Decidable (∀ l ∈ f.leaves, _))

/-- The greatest number of exclamation marks, groups and bodies of existence tests that enclose
one another in the text. -/
def textNesting : Filter → Nat
  | existence _ _ negated sub =>
    negated.toNat + if sub.isOpen then 0 else sub.textNesting + 1
  | f@(junction _ _ left right) =>
    max (left.textNesting + (decide (left.precedence < f.precedence)).toNat)
      (right.textNesting + (decide (right.precedence ≤ f.precedence)).toNat)
  | _ => 0

end Filter

/-! ## Phrases of filters -/

/-- How tightly a filter may bind at most, to be put in parentheses in this place. -/
def Grammar.Category.limit : Category → Nat
  | .operand => 2
  | .run .and => 1
  | .run .or => 0

/-- The phrase spells these words, in parentheses or not, and denotes the filter without
numbers. -/
structure Grammar.Phrase.Says {c : Category} (p : Phrase c) (schema : Schema) (f : Filter)
    (words : List Lexeme) (parenthesized : Bool) : Prop where
  lexemes : p.lexemes = wrapWords parenthesized words
  nesting : p.nesting = f.textNesting + parenthesized.toNat
  denote : ∀ {e : Entity}, schema.Registers e → e.name = f.entity →
    p.denote schema e = some f.unnumbered

namespace Grammar.Phrase.Says

variable {f : Filter} {words : List Lexeme}

/-- A part on its own says what the run of it does. -/
theorem single {kind : Junction} {p : Phrase (.part kind)} {parenthesized : Bool}
    (h : p.Says schema f words parenthesized) :
    (Phrase.single kind p).Says schema f words parenthesized :=
  ⟨h.lexemes, h.nesting, h.denote⟩

/-- Parentheses change how a filter may be used, and not what it says. -/
theorem group {p : Phrase .filter} (h : p.Says schema f words false) :
    (Phrase.group p).Says schema f words true := by
  refine ⟨?_, congrArg (· + 1) h.nesting, h.denote⟩
  rw [Phrase.lexemes, h.lexemes]
  rfl

/-- A comparison or an existence test stands in every place as it is. -/
theorem operand {p : Phrase .operand} (h : p.Says schema f words false)
    (hprecedence : f.precedence = 3) (c : Category) :
    ∃ p : Phrase c, p.Says schema f words (f.precedence ≤ c.limit) := by
  rw [hprecedence]
  match c with
  | .operand => exact ⟨p, h⟩
  | .run .and => exact ⟨_, h.single⟩
  | .run .or => exact ⟨_, h.single.single⟩

/-- A junction stands as it is where it binds tighter than the place asks for, and in
parentheses elsewhere. -/
theorem run {kind : Junction} {p : Phrase (.run kind)} (h : p.Says schema f words false)
    (hprecedence : f.precedence = (Category.part kind).limit) (c : Category) :
    ∃ p : Phrase c, p.Says schema f words (f.precedence ≤ c.limit) := by
  rw [hprecedence]
  match kind, c with
  | .and, .operand => exact ⟨_, h.single.group⟩
  | .and, .run .and => exact ⟨p, h⟩
  | .and, .run .or => exact ⟨_, h.single⟩
  | .or, .operand => exact ⟨_, h.group⟩
  | .or, .run .and => exact ⟨_, h.group.single⟩
  | .or, .run .or => exact ⟨p, h⟩

end Grammar.Phrase.Says

namespace Filter

theorem precedence_pos (f : Filter) : 0 < f.precedence := by
  cases f with
  | junction e kind => cases kind <;> exact Nat.succ_pos _
  | _ => exact Nat.succ_pos _

/-- Nothing is in parentheses where a whole filter is asked for. -/
@[simp] theorem decide_precedence_le_filter (f : Filter) :
    decide (f.precedence ≤ Category.filter.limit) = false :=
  decide_eq_false (Nat.not_le.2 f.precedence_pos)

theorem eq_opened_of_isOpen {f : Filter} (h : f.isOpen = true) : ∃ e, f = opened e := by
  cases f with
  | opened e => exact ⟨e, rfl⟩
  | _ => exact nomatch h

end Filter

namespace Grammar.Phrase.Says

variable {e : String} {c : Chain} {sub : Filter} {words : List Lexeme}

/-- The words of a path, an operator and a sign say the comparison with a parameter. -/
theorem comparison {l : Leaf} (hshape : l.InShape) (hchain : l.chain.DeclaredIn schema)
    (hparam : l.operand.isParameter = true) :
    (Phrase.comparison l.chain.path l.shape.op).Says schema (.compare l)
      (l.chain.path.lexemes ++ [.op l.shape.op, .param]) false := by
  refine ⟨rfl, rfl, fun he hname => ?_⟩
  refine Phrase.denote_comparison.2 ⟨_, hshape.resolve?_path he hname.symm hchain, ?_⟩
  rw [Filter.unnumbered, Leaf.unnumbered, Operand.unnumbered_of_isParameter hparam, hname]
  rfl

/-- A test for any row has nothing in its parentheses. -/
theorem anyRow {t : String} (hshape : (Filter.existence e c false (.opened t)).InShape)
    (hchain : c.DeclaredIn schema) :
    (Phrase.anyRow c.path).Says schema (.existence e c false (.opened t))
      (c.path.lexemes ++ .leftParen :: [] ++ [.rightParen]) false := by
  obtain ⟨⟨hroot, hconnected, hkind⟩, -, -⟩ := hshape
  refine ⟨?_, rfl, fun he hname => ?_⟩
  · rw [Phrase.lexemes, List.append_assoc]
    rfl
  · obtain ⟨target, -, htarget, hresolve⟩ := Chain.resolve?_path_existence he
      (hroot.trans hname.symm) hconnected hkind hchain
    refine Phrase.denote_anyRow.2 ⟨_, target, hresolve, rfl, ?_⟩
    rw [htarget, hname]
    rfl

/-- A path and words in parentheses say the test over what the words say. -/
theorem rows {p : Phrase .filter} (h : p.Says schema sub words false)
    (hshape : (Filter.existence e c false sub).InShape) (hchain : c.DeclaredIn schema)
    (hopen : sub.isOpen = false) :
    (Phrase.rows c.path p).Says schema (.existence e c false sub)
      (c.path.lexemes ++ .leftParen :: words ++ [.rightParen]) false := by
  obtain ⟨⟨hroot, hconnected, hkind⟩, -, -⟩ := hshape
  refine ⟨?_, ?_, fun he hname => ?_⟩
  · rw [Phrase.lexemes, h.lexemes]
    rfl
  · rw [Phrase.nesting, h.nesting, Filter.textNesting, hopen]
    exact (Nat.zero_add _).symm
  · obtain ⟨target, htarget, hentity, hresolve⟩ := Chain.resolve?_path_existence he
      (hroot.trans hname.symm) hconnected hkind hchain
    refine Phrase.denote_rows.2 ⟨_, target, _, hresolve, rfl, h.denote htarget hentity, ?_⟩
    rw [hname]
    rfl

/-- A sign in front says the negated test. -/
theorem not {p : Phrase .operand} (h : p.Says schema (.existence e c false sub) words false) :
    (Phrase.not p).Says schema (.existence e c true sub) (.not :: words) false := by
  refine ⟨?_, ?_, fun he hname => ?_⟩
  · rw [Phrase.lexemes, h.lexemes]
    rfl
  · rw [Phrase.nesting, h.nesting]
    simp only [Filter.textNesting, Bool.toNat_false, Bool.toNat_true]
    omega
  · exact Phrase.denote_not.2 ⟨_, h.denote he hname, rfl⟩

/-- The last operand of a run binds tighter than the run, those before it at least as tight. -/
theorem more {kind : Junction} {left right : Filter} {lwords rwords : List Lexeme}
    {pl : Phrase (.run kind)} {pr : Phrase (.part kind)}
    (hl : pl.Says schema left lwords (left.precedence ≤ (Category.run kind).limit))
    (hr : pr.Says schema right rwords (right.precedence ≤ (Category.part kind).limit))
    (hle : left.entity = e) (hre : right.entity = e) :
    (Phrase.more kind pl pr).Says schema (.junction e kind left right)
      (wrapWords (left.precedence < (Filter.junction e kind left right).precedence) lwords ++
        signOf kind ::
          wrapWords (right.precedence ≤ (Filter.junction e kind left right).precedence) rwords)
      false := by
  have hprecedence : (Category.part kind).limit =
      (Filter.junction e kind left right).precedence := by
    cases kind <;> rfl
  have hloose : decide (left.precedence ≤ (Category.run kind).limit) =
      decide (left.precedence < (Filter.junction e kind left right).precedence) := by
    rw [← hprecedence, decide_eq_decide]
    cases kind <;> exact Nat.lt_succ_iff.symm
  rw [hloose] at hl
  rw [hprecedence] at hr
  refine ⟨?_, ?_, fun he hname => ?_⟩
  · rw [Phrase.lexemes, hl.lexemes, hr.lexemes]
    rfl
  · rw [Phrase.nesting, hl.nesting, hr.nesting]
    rfl
  · refine Phrase.denote_more.2 ⟨_, _, hl.denote he (hname.trans hle.symm),
      hr.denote he (hname.trans hre.symm), ?_⟩
    rw [hname]
    rfl

end Grammar.Phrase.Says

namespace Filter

/-- An existence test has a phrase if the filter inside has one. -/
theorem exists_phrase_existence {e : String} {c : Chain} {negated : Bool} {sub : Filter}
    (hshape : (existence e c negated sub).InShape) (hchain : c.DeclaredIn schema)
    (hlegible : c.Legible) (hsub : sub.isOpen = false → ∃ words, sub.words? = some words ∧
      ∃ p : Phrase .filter, p.Says schema sub words false) :
    ∃ words, (existence e c negated sub).words? = some words ∧
      ∃ p : Phrase .operand, p.Says schema (existence e c negated sub) words false := by
  -- first the test without its sign
  have htest : ∃ body, (if sub.isOpen then some [] else sub.words?) = some body ∧
      ∃ p : Phrase .operand, p.Says schema (existence e c false sub)
        (c.path.lexemes ++ .leftParen :: body ++ [.rightParen]) false := by
    cases hopen : sub.isOpen with
    | true =>
      obtain ⟨t, rfl⟩ := eq_opened_of_isOpen hopen
      exact ⟨[], rfl, _, .anyRow hshape hchain⟩
    | false =>
      obtain ⟨body, hbody, p, hp⟩ := hsub hopen
      exact ⟨body, hbody, _, hp.rows hshape hchain hopen⟩
  obtain ⟨body, hbody, p, hp⟩ := htest
  refine ⟨_, by rw [words?, Chain.words?, if_pos hlegible, hbody]; rfl, ?_⟩
  cases negated with
  | false => exact ⟨p, hp⟩
  | true => exact ⟨_, hp.not⟩

/-- A filter that can be spelled has a phrase for every place. -/
theorem exists_phrase {f : Filter} (hshape : f.InShape) (hdeclared : f.DeclaredIn schema)
    (hlegible : f.Legible) (hproper : f.Proper) (hparametric : f.Parametric) :
    ∃ words, f.words? = some words ∧
      ∀ c : Category, ∃ p : Phrase c, p.Says schema f words (f.precedence ≤ c.limit) := by
  induction f with
  | opened => exact nomatch hproper.1
  | closed => exact nomatch hproper.2
  | compare l =>
    have hparam : l.operand.isParameter = true := hparametric l (by simp)
    have hchain : l.chain.Legible := hlegible
    refine ⟨_, by rw [words?, Chain.words?, if_pos hchain,
      Leaf.operandWord?_of_isParameter hparam]; rfl, ?_⟩
    exact (Phrase.Says.comparison hshape hdeclared.2 hparam).operand rfl
  | existence e c negated sub ih =>
    obtain ⟨-, hchain, hsubdeclared⟩ := hdeclared
    have hphrase := exists_phrase_existence hshape hchain hlegible.1 fun hopen => by
      obtain ⟨words, hwords, hphrase⟩ :=
        ih hshape.2.2 hsubdeclared hlegible.2 ⟨hopen, hshape.2.1⟩ hparametric
      obtain ⟨p, hp⟩ := hphrase .filter
      rw [decide_precedence_le_filter] at hp
      exact ⟨words, hwords, p, hp⟩
    obtain ⟨words, hwords, p, hp⟩ := hphrase
    exact ⟨words, hwords, hp.operand rfl⟩
  | junction e kind left right ihl ihr =>
    obtain ⟨⟨hle, hlp, hls⟩, hre, hrp, hrs⟩ := hshape
    obtain ⟨-, hld, hrd⟩ := hdeclared
    have hl : left.Parametric := fun l hl => hparametric l (by simp [hl])
    have hr : right.Parametric := fun l hl => hparametric l (by simp [hl])
    obtain ⟨lwords, hlw, hleft⟩ := ihl hls hld hlegible.1 hlp hl
    obtain ⟨rwords, hrw, hright⟩ := ihr hrs hrd hlegible.2 hrp hr
    obtain ⟨pl, hpl⟩ := hleft (.run kind)
    obtain ⟨pr, hpr⟩ := hright (.part kind)
    refine ⟨_, by rw [words?, hlw, hrw]; rfl, ?_⟩
    have hprecedence : (junction e kind left right).precedence = (Category.part kind).limit := by
      cases kind <;> rfl
    exact (hpl.more hpr hle hre).run hprecedence

end Filter

/-! ## Words that are no phrase -/

/-- The word is an operator. -/
def isOperator : Lexeme → Bool
  | .op _ => true
  | _ => false

/-- The word is a parameter. -/
def isParam : Lexeme → Bool
  | .param => true
  | _ => false

@[simp] theorem isOperator_op (o : RelOp) : isOperator (.op o) = true := rfl

@[simp] theorem isParam_op (o : RelOp) : isParam (.op o) = false := rfl

@[simp] theorem isOperator_param : isOperator .param = false := rfl

@[simp] theorem isParam_param : isParam .param = true := rfl

/-- Only operators or parameters are counted, none of the words that hold them together. -/
def Counts (q : Lexeme → Bool) : Prop :=
  ∀ l, isOperator l = false → isParam l = false → q l = false

/-- Operators stand in comparisons alone, so words count them. -/
theorem counts_isOperator : Counts isOperator :=
  fun _ h _ => h

theorem counts_isParam : Counts isParam :=
  fun _ _ h => h

namespace Counts

variable {q : Lexeme → Bool}

theorem path (hq : Counts q) (path : Path) : path.lexemes.countP q = 0 := by
  have hname : ∀ n, q (.name n) = false := fun n => hq _ rfl rfl
  have hhop : ∀ h : HopName, h.lexemes.countP q = 0 := by
    intro h
    unfold HopName.lexemes
    split <;> simp [hname, hq .leftParen rfl rfl, hq .rightParen rfl rfl]
  obtain ⟨first, rest⟩ := path
  rw [Path.lexemes, List.countP_append, hhop, Path.tailLexemes, List.countP_flatMap]
  simp [Function.comp_def, hq .dot rfl rfl, hhop]

theorem sign (hq : Counts q) (kind : Junction) : q (signOf kind) = false := by
  cases kind <;> exact hq _ rfl rfl

theorem wrap (hq : Counts q) (parenthesize : Bool) (words : List Lexeme) :
    (wrapWords parenthesize words).countP q = words.countP q := by
  cases parenthesize with
  | false => rfl
  | true => simp [wrapWords, hq .leftParen rfl rfl, hq .rightParen rfl rfl]

theorem test (hq : Counts q) (negated : Bool) (path : Path) (body : List Lexeme) :
    ((if negated then [Lexeme.not] else []) ++ path.lexemes ++ Lexeme.leftParen :: body ++
      [Lexeme.rightParen]).countP q = body.countP q := by
  have hnot : (if negated then [Lexeme.not] else []).countP q = 0 := by
    cases negated <;> simp [hq .not rfl rfl]
  simp [hnot, hq.path, hq .leftParen rfl rfl, hq .rightParen rfl rfl]

end Counts

/-- What is written behind an operator is no operator, and the sign just for parameters. -/
theorem Leaf.operandWord?_eq_some {l : Leaf} {w : Lexeme} (h : l.operandWord? = some w) :
    isOperator w = false ∧ isParam w = l.operand.isParameter := by
  unfold operandWord? at h
  cases hoperand : l.operand with
  | constant v =>
    rw [hoperand] at h
    cases v with
    | bool b =>
      obtain rfl := Option.some.inj h
      exact ⟨rfl, rfl⟩
    | null =>
      obtain rfl := Option.some.inj h
      exact ⟨rfl, rfl⟩
    | _ => exact nomatch h
  | unbound | bound =>
    rw [hoperand] at h
    obtain rfl := Option.some.inj h
    exact ⟨rfl, rfl⟩

/-- The words of a filter have an operator for each comparison, but parameters only for those
with a parameter. -/
theorem Filter.countP_words {f : Filter} {words : List Lexeme} (h : f.words? = some words) :
    words.countP isOperator = f.leaves.length ∧
      words.countP isParam = f.leaves.countP fun l => l.operand.isParameter := by
  induction f generalizing words with
  | opened | closed =>
    obtain rfl := Option.some.inj h
    exact ⟨rfl, rfl⟩
  | compare l =>
    obtain ⟨path, hpath, h⟩ := Option.bind_eq_some_iff.1 h
    obtain ⟨w, hw, rfl⟩ := Option.map_eq_some_iff.1 h
    obtain ⟨-, rfl⟩ := Chain.words?_eq_some.1 hpath
    obtain ⟨hop, hparam⟩ := Leaf.operandWord?_eq_some hw
    constructor
    · simp [counts_isOperator.path, List.countP_cons, hop]
    · simp [counts_isParam.path, List.countP_cons, hparam]
  | existence e c negated sub ih =>
    obtain ⟨path, hpath, h⟩ := Option.bind_eq_some_iff.1 h
    obtain ⟨body, hbody, rfl⟩ := Option.map_eq_some_iff.1 h
    obtain ⟨-, rfl⟩ := Chain.words?_eq_some.1 hpath
    rw [counts_isOperator.test, counts_isParam.test, leaves_existence]
    -- an open filter inside is not written, and has no comparisons
    split at hbody
    · next hopen =>
      obtain ⟨t, rfl⟩ := eq_opened_of_isOpen hopen
      obtain rfl := Option.some.inj hbody
      exact ⟨rfl, rfl⟩
    · exact ih hbody
  | junction e kind left right ihl ihr =>
    obtain ⟨lwords, hl, h⟩ := Option.bind_eq_some_iff.1 h
    obtain ⟨rwords, hr, rfl⟩ := Option.map_eq_some_iff.1 h
    obtain ⟨hlop, hlparam⟩ := ihl hl
    obtain ⟨hrop, hrparam⟩ := ihr hr
    constructor
    · simp [counts_isOperator.wrap, counts_isOperator.sign, hlop, hrop]
    · simp [counts_isParam.wrap, counts_isParam.sign, hlparam, hrparam]

/-- A name that is no word stops the scan, wherever it stands in the filter. -/
theorem Filter.legible_of_words {f : Filter} {words : List Lexeme} (h : f.words? = some words) :
    f.Legible := by
  induction f generalizing words with
  | opened | closed => exact trivial
  | compare l =>
    obtain ⟨path, hpath, -⟩ := Option.bind_eq_some_iff.1 h
    exact (Chain.words?_eq_some.1 hpath).1
  | existence e c negated sub ih =>
    obtain ⟨path, hpath, h⟩ := Option.bind_eq_some_iff.1 h
    obtain ⟨body, hbody, -⟩ := Option.map_eq_some_iff.1 h
    refine ⟨(Chain.words?_eq_some.1 hpath).1, ?_⟩
    split at hbody
    · next hopen =>
      obtain ⟨t, rfl⟩ := eq_opened_of_isOpen hopen
      exact trivial
    · exact ih hbody
  | junction e kind left right ihl ihr =>
    obtain ⟨lwords, hl, h⟩ := Option.bind_eq_some_iff.1 h
    obtain ⟨rwords, hr, -⟩ := Option.map_eq_some_iff.1 h
    exact ⟨ihl hl, ihr hr⟩

/-- In a phrase every operator has its parameter. -/
theorem Grammar.Phrase.countP_operator {c : Category} (p : Phrase c) :
    p.lexemes.countP isOperator = p.lexemes.countP isParam := by
  have hpath : ∀ path : Path, path.lexemes.countP isOperator = 0 ∧
      path.lexemes.countP isParam = 0 :=
    fun path => ⟨counts_isOperator.path path, counts_isParam.path path⟩
  induction p with
  | single kind p ih => exact ih
  | more kind before next ihb ihn =>
    simp [Phrase.lexemes, counts_isOperator.sign, counts_isParam.sign, ihb, ihn]
  | not p ih => simpa [Phrase.lexemes, isOperator, isParam] using ih
  | group p ih => simpa [Phrase.lexemes, isOperator, isParam] using ih
  | comparison path op => simp [Phrase.lexemes, hpath, List.countP_cons]
  | anyRow path => simp [Phrase.lexemes, hpath, isOperator, isParam]
  | rows path body ih => simp [Phrase.lexemes, hpath, isOperator, isParam, ih]

/-- What spells a phrase is neither open nor closed and has parameters for operands. -/
theorem Filter.proper_of_phrase {f : Filter} {words : List Lexeme} (h : f.words? = some words)
    {p : Phrase .filter} (hp : p.lexemes = words) : f.Proper ∧ f.Parametric := by
  constructor
  · -- the open and the closed filter are one word, a phrase is more
    obtain ⟨first, second, rest, hwords, -⟩ := p.enclosable
    rw [hp] at hwords
    cases f with
    | opened | closed =>
      rw [hwords] at h
      exact nomatch h
    | _ => exact ⟨rfl, rfl⟩
  · -- a constant would be an operand that is no parameter
    obtain ⟨hop, hparam⟩ := countP_words h
    have hcount := p.countP_operator
    rw [hp, hop, hparam] at hcount
    exact List.countP_eq_length.1 hcount.symm

/-- Phrases with the same words denote the same filter. -/
theorem Grammar.Phrase.denote_unique {p p' : Phrase .filter} (hwords : p.lexemes = p'.lexemes)
    {e : Entity} {f f' : Filter} (h : p.denote schema e = some f)
    (h' : p'.denote schema e = some f') : f = f' := by
  -- the reader reads both, with a limit that is high enough, and there is one it reads
  let limit := max (max p.nesting p'.nesting) (max f.depth f'.depth)
  let ctx : Context := ⟨schema, { maxDepth := limit + 1, maxDepth_pos := Nat.succ_pos _ }⟩
  have hlimit : ctx.config.maxDepth = limit + 1 := rfl
  let tokens : List Token := p.lexemes.map fun l => ⟨l, .zero⟩
  have htokens : tokens.map Token.lexeme = p.lexemes := by
    simp [tokens, Function.comp_def]
  have hread : wholeFilter ⟨ctx.builder, ""⟩ e tokens = .ok f :=
    wholeFilter_eq_ok.2 ⟨p, htokens.symm, h, by omega, by omega⟩
  have hread' : wholeFilter ⟨ctx.builder, ""⟩ e tokens = .ok f' :=
    wholeFilter_eq_ok.2 ⟨p', (htokens.trans hwords).symm, h', by omega, by omega⟩
  exact Except.ok.inj (hread.symm.trans hread')

/-! ## Parsing what was written -/

namespace Context

/-- Over a known entity, a text is scanned and then read. -/
theorem parse_eq {name text : String} {e : Entity} (he : ctx.entity name = .ok e) :
    ctx.parse name text = scan text >>= wholeFilter ⟨ctx.builder, text⟩ e := by
  have hparse : ctx.parse name text = ctx.builder.parseOver e text := by
    unfold Context.parse
    rw [he]
    rfl
  rw [hparse]
  unfold Builder.parseOver
  rw [ofExcept_eq]

/-- A text is parsed as what its words spell. -/
theorem parse_eq_ok {name text : String} {e : Entity} (he : ctx.entity name = .ok e) {f : Filter} :
    ctx.parse name text = .ok f ↔
      ∃ words, wordsFrom 0 text.toList = some words ∧
        Spells ctx ctx.config.maxDepth .filter e words f := by
  rw [parse_eq he, bind_eq_ok]
  constructor
  · rintro ⟨tokens, hscan, hread⟩
    exact ⟨_, scan_eq_ok_iff.1 ⟨tokens, hscan, rfl⟩, wholeFilter_eq_ok.1 hread⟩
  · rintro ⟨words, hwords, hspells⟩
    obtain ⟨tokens, hscan, rfl⟩ := scan_eq_ok_iff.2 hwords
    exact ⟨tokens, hscan, wholeFilter_eq_ok.2 hspells⟩

variable {f g : Filter}

/-- The text of a filter that can be spelled has the words of a phrase, which denotes the filter
without numbers and nests as far as the text. -/
theorem exists_phrase_render (hnames : ctx.schema.WellNamed) (hfits : f.Fits ctx f.entity)
    (hdeclared : f.DeclaredIn ctx.schema) (hlegible : f.Legible) (hproper : f.Proper)
    (hparametric : f.Parametric) :
    ∃ (e : Entity) (p : Phrase .filter), ctx.entity f.entity = .ok e ∧
      wordsFrom 0 f.render.toList = some p.lexemes ∧
      p.denote ctx.schema e = some f.unnumbered ∧ p.nesting = f.textNesting := by
  obtain ⟨e, he, hregisters, hname⟩ := entity_of_knows hdeclared.knows
  obtain ⟨words, hwords, hphrase⟩ :=
    Filter.exists_phrase hfits.inShape hdeclared hlegible hproper hparametric
  obtain ⟨p, hp⟩ := hphrase .filter
  rw [Filter.decide_precedence_le_filter] at hp
  obtain rfl : p.lexemes = words := hp.lexemes
  refine ⟨e, p, he, ?_, hp.denote hregisters hname, hp.nesting⟩
  rw [(Filter.scans_render hnames hdeclared).wordsFrom_eq, hwords]

/-- The text of a filter is parsed as the filter without numbers or not at all. -/
theorem eq_of_parse_render (hnames : ctx.schema.WellNamed) (hfits : f.Fits ctx f.entity)
    (hdeclared : f.DeclaredIn ctx.schema) (h : ctx.parse f.entity f.render = .ok g) :
    f.Proper ∧ f.Parametric ∧ g = f.unnumbered := by
  obtain ⟨e, he, -⟩ := entity_of_knows hdeclared.knows
  obtain ⟨words, hwords, p, hp, hg, -, -⟩ := (parse_eq_ok he).1 h
  have hspelled : f.words? = some words := by
    rw [← hwords, (Filter.scans_render hnames hdeclared).wordsFrom_eq]
  obtain ⟨hproper, hparametric⟩ := Filter.proper_of_phrase hspelled hp
  -- the phrase that was read has the words of the phrase of the filter
  obtain ⟨e', p', he', hwords', hg', -⟩ := exists_phrase_render hnames hfits hdeclared
    (Filter.legible_of_words hspelled) hproper hparametric
  obtain rfl : e = e' := Except.ok.inj (he.symm.trans he')
  obtain rfl : words = p'.lexemes := Option.some.inj (hwords.symm.trans hwords')
  exact ⟨hproper, hparametric, Phrase.denote_unique hp hg hg'⟩

/-- The text of a filter that can be spelled is parsed unless it nests too far. -/
theorem parse_render_ok (hnames : ctx.schema.WellNamed) (hfits : f.Fits ctx f.entity)
    (hdeclared : f.DeclaredIn ctx.schema) (hlegible : f.Legible) (hproper : f.Proper)
    (hparametric : f.Parametric) (hnesting : f.textNesting ≤ ctx.config.maxDepth) :
    ctx.parse f.entity f.render = .ok f.unnumbered := by
  obtain ⟨e, p, he, hwords, hdenote, hsame⟩ :=
    exists_phrase_render hnames hfits hdeclared hlegible hproper hparametric
  refine (parse_eq_ok he).2 ⟨_, hwords, p, rfl, hdenote, ?_, ?_⟩
  · rw [hsame]
    exact hnesting
  · rw [Filter.depth_unnumbered]
    exact hfits.depth

end Context

namespace Pool

variable {pool : Pool} {held : List Instance}

/-- Where property names are names for the scan, the text of an instance is parsed, if at all, as
the instance without numbers, and the instance is then neither open nor closed and has no
constants. Such an instance is parsed if its text nests no further than filters may be deep. -/
theorem Reached.parse_render (h : Reached ctx pool held) (hlegible : ctx.schema.Legible)
    {i : Instance} (hi : i ∈ held) :
    (∀ is pool', (serve ctx (.parse i.node.entity i.filter.render)).run pool = (.ok is, pool') →
        i.filter.Proper ∧ i.filter.Parametric ∧
          ∃ g, is = [g] ∧ g.filter = i.filter.unnumbered ∧
            (∀ j ∈ held, j.filter = i.filter.unnumbered → g = j) ∧
            ((∀ l ∈ i.filter.leaves, l.operand = .unbound) → g = i)) ∧
      (i.filter.Proper → i.filter.Parametric → i.filter.textNesting ≤ ctx.config.maxDepth →
        ∃ g pool', (serve ctx (.parse i.node.entity i.filter.render)).run pool =
          (.ok [g], pool')) := by
  obtain ⟨hfits, hdeclared⟩ := h.kept (declared_kept ctx) i hi
  have hargs : ∀ j ∈ (Query.parse i.node.entity i.filter.render : Request).arguments, j ∈ held := by
    simp [Query.arguments]
  rw [entity_node] at hargs ⊢
  constructor
  · intro is pool' hrun
    obtain ⟨hreached, hanswer⟩ := h.of_run hargs hrun
    obtain ⟨f, hparse, his⟩ := bind_eq_ok.1 hanswer
    obtain ⟨hproper, hparametric, rfl⟩ :=
      ctx.eq_of_parse_render hlegible.wellNamed hfits hdeclared hparse
    obtain ⟨g, rfl, hg⟩ := List.map_eq_singleton_iff.1 (pure_eq_ok.1 his).symm
    have hone : ∀ j ∈ held, j.filter = i.filter.unnumbered → g = j :=
      fun j hj hjf => hreached.eq_of_filter_eq (by simp) (by simp [hj]) (hg.trans hjf.symm)
    refine ⟨hproper, hparametric, g, rfl, hg, hone, fun hunbound => hone i hi ?_⟩
    exact (Filter.unnumbered_of_unbound hunbound).symm
  · intro hproper hparametric hnesting
    have hparse := ctx.parse_render_ok hlegible.wellNamed hfits hdeclared
      (hdeclared.legible hlegible) hproper hparametric hnesting
    have hanswer : ctx.answer (.parse i.filter.entity i.filter.render) =
        .ok [i.filter.unnumbered] :=
      bind_eq_ok.2 ⟨_, hparse, rfl⟩
    obtain ⟨is, pool', hrun, his, -⟩ := h.serve_ok hargs hanswer
    obtain ⟨g, rfl, -⟩ := List.map_eq_singleton_iff.1 his
    exact ⟨g, pool', hrun⟩

/-- The text of the filter that is held is parsed as that filter. -/
theorem Sample.parse_render_given :
    ∃ i pool', Sample.given = [i] ∧ i.filter = Sample.filter ∧
      (serve Sample.context (.parse i.node.entity i.filter.render)).run Sample.after =
        (.ok [i], pool') := by
  obtain ⟨i, hgiven, hi, hfilter⟩ := Sample.exists_given
  obtain ⟨hback, hparsed⟩ := Reached.parse_render Sample.reached (by decide +kernel) hi
  rw [hfilter] at hback hparsed
  obtain ⟨g, pool', hrun⟩ := hparsed ⟨rfl, rfl⟩ (by decide +kernel) (by decide +kernel)
  obtain ⟨-, -, g', hg, -, -, hsame⟩ := hback _ _ hrun
  obtain rfl : g = g' := List.singleton_inj.1 hg
  have hunbound : ∀ l ∈ Sample.filter.leaves, l.operand = .unbound := by decide +kernel
  rw [hsame hunbound] at hrun
  rw [← hfilter] at hrun
  exact ⟨i, pool', hgiven, hfilter, hrun⟩

end Pool

end RowFilter
