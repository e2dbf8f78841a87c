import RowFilter.Filter.Render
import RowFilter.Proofs.Declared
import RowFilter.Proofs.Scanning

/-!
# What the text of a filter is read as

The words of a written filter, node by node (`Filter.words?`), for any filter: parameters are
read as parameters, the open and the closed filter as a name, a constant as a name or not at all.
Where every property name is a name for the scan, the text of a filter scans to these words,
whatever stands behind it.
-/

namespace RowFilter

open RowFilter.Grammar RowFilter.Text

/-! ## Constants -/

/-- The word that a value as it is shown is read as, if it is a word. -/
def Value.word? : Value → Option Lexeme
  | .bool b => some (.name (if b then "true" else "false"))
  | .null => some (.name "null")
  | _ => none

namespace Grammar.Scans

/-- A character that is neither a blank, nor a sign, nor the beginning of a name stops the scan. -/
theorem stuck {c : Char} {tail : List Char} (hblank : isBlank c = false)
    (hsign : c ∉ ".()&|?=!<>".toList) (hbegins : beginsName c = false) :
    Scans (c :: tail) none := by
  intro rest _
  have hl : lexeme? c (tail ++ rest) = none :=
    lexeme?_eq_none_iff.2 (by simpa [beginsWord, hbegins] using hsign)
  rw [List.cons_append, wordsFrom, hblank, hl]
  rfl

/-- No word begins with a digit. -/
theorem digit {c : Char} {tail : List Char} (h : c.isDigit = true) : Scans (c :: tail) none := by
  have hall : ∀ n ∈ List.range' 48 10, isBlank (Char.ofNat n) = false ∧
      Char.ofNat n ∉ ".()&|?=!<>".toList ∧ beginsName (Char.ofNat n) = false := by
    decide +kernel
  simp only [Char.isDigit, Bool.and_eq_true, decide_eq_true_eq, ge_iff_le,
    UInt32.le_iff_toNat_le] at h
  have hlow : 48 ≤ c.toNat := h.1
  have hhigh : c.toNat ≤ 57 := h.2
  obtain ⟨hblank, hsign, hbegins⟩ := hall c.toNat (by rw [List.mem_range'_1]; omega)
  rw [Char.ofNat_toNat] at hblank hsign hbegins
  exact stuck hblank hsign hbegins

theorem minus (tail : List Char) : Scans ('-' :: tail) none :=
  stuck (by decide) (by decide) (by decide +kernel)

theorem quotation (tail : List Char) : Scans ('"' :: tail) none :=
  stuck (by decide) (by decide) (by decide +kernel)

theorem exists_toDigits (n : Nat) : ∃ c rest, Nat.toDigits 10 n = c :: rest ∧ c.isDigit = true := by
  obtain ⟨c, rest, hdigits⟩ := List.exists_cons_of_ne_nil (@Nat.toDigits_ne_nil n 10)
  refine ⟨c, rest, hdigits, ?_⟩
  refine Nat.isDigit_of_mem_toDigits (by decide) (by decide) (b := 10) (n := n) ?_
  rw [hdigits]
  exact List.mem_cons_self

/-- No word begins with a digit, so numbers are not read. -/
theorem nat (n : Nat) : Scans (toString n).toList none := by
  have hchars : (toString n).toList = Nat.toDigits 10 n := Nat.toList_repr
  obtain ⟨c, rest, hdigits, hc⟩ := exists_toDigits n
  rw [hchars, hdigits]
  exact digit hc

/-- Negative or not, integers are not read. -/
theorem int (n : Int) : Scans (toString n).toList none := by
  cases n with
  | ofNat n => exact nat n
  | negSucc n =>
    have hminus : (toString (Int.negSucc n)).toList = '-' :: (toString (n + 1)).toList := by
      show ("-" ++ toString (n + 1)).toList = _
      rw [String.toList_append]
      rfl
    rw [hminus]
    exact minus _

/-- Nor are numbers with a point. -/
theorem decimal (d : Number.Decimal) : Scans d.render.toList none := by
  obtain ⟨c, rest, hdigits, hc⟩ := exists_toDigits d.coefficient
  unfold Number.Decimal.render
  simp only [String.toList_ofList, hdigits]
  -- digits come first, if only a zero in front of the point
  split
  · exact digit hc
  · split
    · exact digit (by decide)
    · next hplaces =>
      obtain ⟨k, hk⟩ : ∃ k, (c :: rest).length - (-d.exponent).toNat = k + 1 :=
        ⟨(c :: rest).length - (-d.exponent).toNat - 1, by omega⟩
      rw [hk]
      exact digit hc

/-- Of all values only the words for truth and for nothing are read, and as names. -/
theorem value (v : Value) : Scans v.render.toList (v.word?.map fun w => [w]) := by
  cases v with
  | bool b => cases b <;> exact name (by decide +kernel)
  | null => exact name (by decide +kernel)
  | blob bytes =>
    have hzero : (Value.blob bytes).render.toList = '0' :: 'x' :: (hexBytes bytes).toList := by
      show ("0x" ++ hexBytes bytes).toList = _
      rw [String.toList_append]
      rfl
    rw [hzero]
    exact digit (by decide)
  | float64 x =>
    have hsign : (Value.float64 x).render =
        (if x.toScaled.negative then "-" else "") ++ (Number.shortest .double x.toScaled).render :=
      rfl
    rw [hsign, String.toList_append]
    cases x.toScaled.negative
    · exact decimal _
    · exact minus _
  | int n => exact int n.toInt
  | timestamp n => exact int n.toInt
  | uint n => exact nat n.toNat
  | text s =>
    have hquote : (Value.text s).render.toList = '"' :: (s.toList.flatMap quoteChar ++ ['"']) :=
      String.toList_ofList
    rw [hquote]
    exact quotation _

end Grammar.Scans

/-! ## Chains -/

/-- Every property name is formed as names are: it begins with a letter, an underscore or a dollar
sign and goes on with these and numbers. A name may be a single letter outside ASCII, at which the
scan of a text gives up; `Schema.Legible` is the stronger condition that no name is. -/
def Schema.WellNamed (schema : Schema) : Prop :=
  ∀ e ∈ schema.entities, ∀ f ∈ e.fields, (Lexeme.name f.name).Scanned

/-- The scan of every property name gives this name as its one word. Such names are formed as names
are, as in any well-named schema, and none is a single letter outside ASCII. -/
def Schema.Legible (schema : Schema) : Prop :=
  ∀ e ∈ schema.entities, ∀ f ∈ e.fields, IsName f.name

instance (schema : Schema) : Decidable schema.Legible :=
  inferInstanceAs (Decidable (∀ e ∈ schema.entities, ∀ f ∈ e.fields, IsName f.name))

theorem Schema.Legible.wellNamed {schema : Schema} (h : schema.Legible) : schema.WellNamed :=
  fun e he f hf => (h e he f hf).scanned

section Declared

variable {schema : Schema} {p : Property} {c : Chain}

/-- What a legible schema declares is a word for the scan. -/
theorem Property.DeclaredIn.isName (h : p.DeclaredIn schema) (hlegible : schema.Legible) :
    IsName p.name := by
  obtain ⟨e, hfind, hname⟩ := h
  exact hlegible e (Schema.find?_mem hfind) p.toField (Entity.property?_mem hname)

/-- What a well-named schema declares is formed as names are. -/
theorem Property.DeclaredIn.scanned (h : p.DeclaredIn schema) (hnames : schema.WellNamed) :
    (Lexeme.name p.name).Scanned := by
  obtain ⟨e, hfind, hname⟩ := h
  exact hnames e (Schema.find?_mem hfind) p.toField (Entity.property?_mem hname)

/-- In a well-named schema, hops are over properties with names. -/
theorem Chain.DeclaredIn.scanned (h : c.DeclaredIn schema) (hnames : schema.WellNamed) :
    ∀ k ∈ c.hops, (Lexeme.name k.property.name).Scanned :=
  fun k hk => (h k.property (List.mem_map_of_mem hk)).scanned hnames

end Declared

namespace Chain

variable {c : Chain}

/-- The scan of each name on the chain gives this name as its one word. -/
def Legible (c : Chain) : Prop :=
  ∀ h ∈ c.hops, IsName h.property.name

instance (c : Chain) : Decidable c.Legible :=
  inferInstanceAs (Decidable (∀ h ∈ c.hops, IsName h.property.name))

/-- The chains over a legible schema are legible. -/
theorem DeclaredIn.legible {schema : Schema} (h : c.DeclaredIn schema)
    (hlegible : schema.Legible) : c.Legible :=
  fun k hk => (h k.property (List.mem_map_of_mem hk)).isName hlegible

/-- The words that the text of the chain is read as; a name that is no word stops the scan. -/
def words? (c : Chain) : Option (List Lexeme) :=
  if c.Legible then some c.path.lexemes else none

/-- A chain has words if its names are words, and then they are those of its path. -/
theorem words?_eq_some {words : List Lexeme} :
    c.words? = some words ↔ c.Legible ∧ c.path.lexemes = words := by
  simp [words?]

end Chain

namespace Grammar

/-- A character that goes on neither a name nor an operator ends the word in front of it. -/
theorem ends_cons {c : Char} {rest : List Char} (hname : continuesName c = false)
    (hsign : c ≠ '=') : Ends (c :: rest) := by
  intro d hd
  obtain rfl := Option.some.inj hd
  exact ⟨hname, hsign⟩

theorem ends_blank (rest : List Char) : Ends (' ' :: rest) :=
  ends_cons (by decide +kernel) (by decide)

theorem ends_dot (rest : List Char) : Ends ('.' :: rest) :=
  ends_cons (by decide +kernel) (by decide)

theorem ends_leftParen (rest : List Char) : Ends ('(' :: rest) :=
  ends_cons (by decide +kernel) (by decide)

theorem ends_rightParen (rest : List Char) : Ends (')' :: rest) :=
  ends_cons (by decide +kernel) (by decide)

namespace Scans

theorem closing : Scans [')'] (some [.rightParen]) :=
  nil.rightParen

/-- A hop is read as its name, marked or not; a name of one letter outside ASCII makes the scan
fail. -/
theorem hop {h : Hop} (hname : (Lexeme.name h.property.name).Scanned) :
    Scans h.render.toList (if IsName h.property.name then
      some (HopName.mk h.property.name h.outer).lexemes else none) := by
  unfold Hop.render HopName.lexemes
  cases h.outer with
  | false => exact formed hname
  | true =>
    simp only [if_true, String.toList_append]
    have hall := ((formed hname).append closing (ends_rightParen _)).leftParen
    by_cases hread : IsName h.property.name
    · rw [if_pos hread] at hall ⊢
      exact hall
    · rw [if_neg hread] at hall ⊢
      exact hall

/-- Hops with dots between them are read one by one, if all of their names are words. -/
theorem hops {h : Hop} {rest : List Hop}
    (hnames : ∀ k ∈ h :: rest, (Lexeme.name k.property.name).Scanned) :
    Scans (".".intercalate ((h :: rest).map Hop.render)).toList
      (if ∀ k ∈ h :: rest, IsName k.property.name then
        some ((HopName.mk h.property.name h.outer).lexemes ++
          Path.tailLexemes (rest.map fun k => ⟨k.property.name, k.outer⟩))
      else none) := by
  rw [String.toList_intercalate]
  induction rest generalizing h with
  | nil =>
    have hhop := hop (hnames h (by simp))
    simpa [Path.tailLexemes] using hhop
  | cons k rest ih =>
    have hhop := hop (hnames h (by simp))
    have hrest := (ih fun k' hk' => hnames k' (List.mem_cons_of_mem h hk')).dot
    have hall := hhop.append hrest (ends_dot _)
    -- the words are there if those of the first hop and those of the others are
    have hsplit : (∀ k' ∈ h :: k :: rest, IsName k'.property.name) ↔
        IsName h.property.name ∧ ∀ k' ∈ k :: rest, IsName k'.property.name := List.forall_mem_cons
    by_cases hfirst : IsName h.property.name
    · by_cases hothers : ∀ k' ∈ k :: rest, IsName k'.property.name
      · rw [if_pos hfirst, if_pos hothers] at hall
        rw [if_pos (hsplit.2 ⟨hfirst, hothers⟩)]
        simpa [List.intercalate_cons_cons, Path.tailLexemes] using hall
      · rw [if_pos hfirst, if_neg hothers] at hall
        rw [if_neg fun hboth => hothers (hsplit.1 hboth).2]
        simpa [List.intercalate_cons_cons] using hall
    · rw [if_neg hfirst] at hall
      rw [if_neg fun hboth => hfirst (hsplit.1 hboth).1]
      simpa [List.intercalate_cons_cons] using hall

/-- The text of a chain is read as its words. -/
theorem chain {c : Chain} (hnames : ∀ h ∈ c.hops, (Lexeme.name h.property.name).Scanned) :
    Scans c.render.toList c.words? := by
  obtain ⟨h, rest, hhops⟩ := List.exists_cons_of_ne_nil c.hops_ne_nil
  have hpath : c.path = ⟨⟨h.property.name, h.outer⟩,
      rest.map fun k => ⟨k.property.name, k.outer⟩⟩ := by
    have hnames : c.path.names = c.names := c.names_path
    rw [Chain.names, hhops, List.map_cons, Path.names] at hnames
    obtain ⟨hfirst, hrest⟩ := List.cons.inj hnames
    rw [← hfirst, ← hrest]
  rw [hhops] at hnames
  simp only [Chain.words?, Chain.Legible, Chain.render, hpath, hhops]
  exact hops hnames

/-- The text of a chain does not begin with an equals sign. -/
theorem chain_head {c : Chain} (hnames : ∀ h ∈ c.hops, (Lexeme.name h.property.name).Scanned)
    (rest : List Char) : (c.render.toList ++ rest).head? ≠ some '=' := by
  obtain ⟨h, more, hhops⟩ := List.exists_cons_of_ne_nil c.hops_ne_nil
  have hhop : ∃ d tail, h.render.toList = d :: tail ∧ d ≠ '=' := by
    obtain ⟨d, tail, hs, hbegins, -⟩ := hnames h (by simp [hhops])
    have hname : h.property.name.toList = d :: tail := by
      rw [hs, String.toList_ofList]
    have hd : d ≠ '=' := by
      rintro rfl
      exact absurd hbegins (by decide +kernel)
    unfold Hop.render
    cases h.outer with
    | false => exact ⟨d, tail, hname, hd⟩
    | true => exact ⟨'(', h.property.name.toList ++ [')'], by simp, by decide⟩
  obtain ⟨d, tail, hrender, hd⟩ := hhop
  have hne : h.render ≠ "" := by
    rintro hempty
    rw [hempty] at hrender
    cases hrender
  have hchain : c.render.toList.head? = some d := by
    rw [Chain.render, hhops, List.map_cons, head?_intercalate hne, hrender]
    rfl
  rw [List.head?_append, hchain]
  exact fun h => hd (Option.some.inj h)

end Scans

end Grammar

/-! ## Filters -/

/-- The word that the operand is read as, if it is a word. -/
def Leaf.operandWord? (l : Leaf) : Option Lexeme :=
  match l.operand with
  | .constant v => v.word?
  | _ => some .param

/-- The words, in parentheses if asked for. -/
def wrapWords (parenthesize : Bool) (words : List Lexeme) : List Lexeme :=
  if parenthesize then .leftParen :: words ++ [.rightParen] else words

namespace Filter

/-- The scan of each property name in the filter gives this name as its one word. -/
def Legible : Filter → Prop
  | opened _ | closed _ => True
  | compare l => l.chain.Legible
  | existence _ c _ sub => c.Legible ∧ sub.Legible
  | junction _ _ left right => left.Legible ∧ right.Legible

instance decidableLegible : (f : Filter) → Decidable f.Legible
  | opened _ | closed _ => isTrue trivial
  | compare l => inferInstanceAs (Decidable l.chain.Legible)
  | existence _ c _ sub =>
    have := sub.decidableLegible
    inferInstanceAs (Decidable (c.Legible ∧ sub.Legible))
  | junction _ _ left right =>
    have := left.decidableLegible
    have := right.decidableLegible
    inferInstanceAs (Decidable (left.Legible ∧ right.Legible))

/-- In a legible schema every declared filter is legible. -/
theorem DeclaredIn.legible {schema : Schema} {f : Filter} (h : f.DeclaredIn schema)
    (hlegible : schema.Legible) : f.Legible := by
  induction f with
  | opened | closed => exact trivial
  | compare l => exact h.2.legible hlegible
  | existence e c negated sub ih => exact ⟨h.2.1.legible hlegible, ih h.2.2⟩
  | junction e kind left right ihl ihr => exact ⟨ihl h.2.1, ihr h.2.2⟩

/-- The words that the text of the filter is read as, if they are words. -/
def words? : Filter → Option (List Lexeme)
  | opened _ => some [.name "open"]
  | closed _ => some [.name "closed"]
  | compare l =>
    l.chain.words?.bind fun path => l.operandWord?.map fun w => path ++ [.op l.shape.op, w]
  | existence _ c negated sub =>
    c.words?.bind fun path => (if sub.isOpen then some [] else sub.words?).map fun body =>
      (if negated then [.not] else []) ++ path ++ .leftParen :: body ++ [.rightParen]
  | f@(junction _ kind left right) =>
    left.words?.bind fun l => right.words?.map fun r =>
      wrapWords (left.precedence < f.precedence) l ++ signOf kind ::
        wrapWords (right.precedence ≤ f.precedence) r

end Filter

namespace Grammar.Scans

/-- Parentheses are read as two words around the others. -/
theorem wrap {text : String} {ws : Option (List Lexeme)} (parenthesize : Bool)
    (h : Scans text.toList ws) :
    Scans (Filter.wrap parenthesize text).toList (ws.map (wrapWords parenthesize)) := by
  cases parenthesize with
  | false =>
    have hwords : ws.map (wrapWords false) = ws := by cases ws <;> rfl
    rw [hwords]
    exact h
  | true =>
    have hall := (h.append closing (ends_rightParen _)).leftParen
    have hwords : ws.map (wrapWords true) =
        (ws.bind fun x => (some [Lexeme.rightParen]).map (x ++ ·)).map (.leftParen :: ·) := by
      cases ws <;> rfl
    rw [hwords]
    simpa [Filter.wrap] using hall

/-- A comparison is read as the words of its chain, its operator and its operand. -/
theorem comparison {l : Leaf} (hnames : ∀ h ∈ l.chain.hops, (Lexeme.name h.property.name).Scanned) :
    Scans l.render.toList (l.chain.words?.bind fun path =>
      l.operandWord?.map fun w => path ++ [.op l.shape.op, w]) := by
  have hoperand :
      Scans (l.renderOperand fun _ => none).toList (l.operandWord?.map fun w => [w]) := by
    unfold Leaf.renderOperand Leaf.operandWord?
    cases l.operand with
    | constant v => exact value v
    | unbound | bound =>
      have hparam : Scans "?".toList (some [.param]) := nil.param
      exact hparam
  have hop := ((op l.shape.op).append hoperand.blank (ends_blank _)).blank
  have hall := (chain hnames).append hop (ends_blank _)
  have htext : l.render.toList = l.chain.render.toList ++
      ' ' :: (l.shape.op.symbol.toList ++ ' ' :: (l.renderOperand fun _ => none).toList) := by
    simp [Leaf.render, Leaf.renderWith]
  rw [htext]
  cases hword : l.operandWord? with
  | none =>
    rw [hword] at hall
    exact hall
  | some w =>
    rw [hword] at hall
    exact hall

end Grammar.Scans

/-- The text of a filter is read as its words. -/
theorem Filter.scans_render {schema : Schema} (hnames : schema.WellNamed) {f : Filter}
    (h : f.DeclaredIn schema) : Scans f.render.toList f.words? := by
  induction f with
  | opened e =>
    have hopen : IsName "open" := by decide +kernel
    exact Scans.name hopen
  | closed e =>
    have hclosed : IsName "closed" := by decide +kernel
    exact Scans.name hclosed
  | compare l => exact Scans.comparison (h.2.scanned hnames)
  | existence e c negated sub ih =>
    have hbody : Scans (if sub.isOpen then "" else sub.render).toList
        (if sub.isOpen then some [] else sub.words?) := by
      split
      · exact Scans.nil
      · exact ih h.2.2
    have hparens := (hbody.append Scans.closing (ends_rightParen _)).leftParen
    have htest := (Scans.chain (h.2.1.scanned hnames)).append hparens (ends_leftParen _)
    have htext : (existence e c negated sub).render.toList =
        (if negated then ['!'] else []) ++ (c.render.toList ++
          '(' :: ((if sub.isOpen then "" else sub.render).toList ++ [')'])) := by
      cases negated <;> simp [render, renderWith]
    rw [htext, words?]
    generalize (if sub.isOpen then some [] else sub.words?) = body at htest
    cases negated with
    | false =>
      cases hpath : c.words? with
      | none => simpa [hpath] using htest
      | some path =>
        cases body with
        | none => simpa [hpath] using htest
        | some b => simpa [hpath] using htest
    | true =>
      have hall := htest.not (Scans.chain_head (h.2.1.scanned hnames) _)
      cases hpath : c.words? with
      | none => simpa [hpath] using hall
      | some path =>
        cases body with
        | none => simpa [hpath] using hall
        | some b => simpa [hpath] using hall
  | junction e kind left right ihl ihr =>
    have hl := (ihl h.2.1).wrap (left.precedence < (junction e kind left right).precedence)
    have hr := (ihr h.2.2).wrap (right.precedence ≤ (junction e kind left right).precedence)
    have hall := hl.append (hr.blank.junction kind).blank (ends_blank _)
    have htext : (junction e kind left right).render.toList =
        (wrap (left.precedence < (junction e kind left right).precedence) left.render).toList ++
          ' ' :: (kind.symbol.toList ++ ' ' ::
            (wrap (right.precedence ≤ (junction e kind left right).precedence)
              right.render).toList) := by
      simp [render, renderWith]
    rw [htext, words?]
    cases hlw : left.words? with
    | none =>
      rw [hlw] at hall
      exact hall
    | some l =>
      rw [hlw] at hall
      cases hrw : right.words? with
      | none =>
        rw [hrw] at hall
        exact hall
      | some r =>
        rw [hrw] at hall
        exact hall

end RowFilter
