import RowFilter.Grammar.Reader
import RowFilter.Proofs.TokenText

/-!
# Scanning written text

What a scan gives are the words, wherever they stand. The words of a text that is put together
from pieces are those of the pieces, as long as no piece runs into the next one: a name must not
be continued, and `!`, `<` and `>` must not meet an equals sign. Names, signs and blanks are such
pieces (`Scans`), and put together they are again.
-/

namespace RowFilter.Grammar

open RowFilter.Text

/-! ## Words without positions -/

/-- The words of the characters, the first `skip` of which are passed over. -/
def wordsFrom : (skip : Nat) → List Char → Option (List Lexeme)
  | _, [] => some []
  | skip + 1, _ :: rest => wordsFrom skip rest
  | 0, c :: rest =>
    if isBlank c then wordsFrom 0 rest
    else
      match lexeme? c rest with
      | none => none
      | some (l, more) => if isLoneName c more then none else (wordsFrom more rest).map (l :: ·)

/-- The scan with positions reads the words that the scan without them does. -/
theorem scanFrom_words {text : String} {skip pos : Nat} {read : List Token} {chars : List Char} :
    (scanFrom text skip pos read chars).toOption.map (List.map Token.lexeme) =
      (wordsFrom skip chars).map (read.reverse.map Token.lexeme ++ ·) := by
  induction chars generalizing skip pos read with
  | nil => simp [scanFrom, wordsFrom, Except.toOption]
  | cons c rest ih =>
    cases skip with
    | succ skip => exact ih
    | zero =>
      rw [scanFrom, wordsFrom]
      split
      · exact ih
      · cases hl : lexeme? c rest with
        | none => rfl
        | some found =>
          obtain ⟨l, more⟩ := found
          simp only
          split
          · rfl
          · rw [ih, Option.map_map]
            -- the new word was put in front of the ones read before, in reverse order
            refine congrArg (Option.map · _) (funext fun ws => ?_)
            simp

/-- The scan of a text gives its words, or fails where there are none. -/
theorem scan_words (text : String) :
    (scan text).toOption.map (List.map Token.lexeme) = wordsFrom 0 text.toList := by
  have h := @scanFrom_words text 0 0 [] text.toList
  simpa [scan] using h

/-- A text scans to tokens of certain words exactly if these are its words. -/
theorem scan_eq_ok_iff {text : String} {words : List Lexeme} :
    (∃ tokens, scan text = .ok tokens ∧ tokens.map Token.lexeme = words) ↔
      wordsFrom 0 text.toList = some words := by
  rw [← scan_words]
  cases scan text with
  | error e => simp [Except.toOption]
  | ok tokens => simp [Except.toOption]

/-- A scan has nothing to say about depth. -/
theorem scanFrom_ne_tooDeep {text : String} {skip pos limit : Nat} {read : List Token}
    {chars : List Char} : scanFrom text skip pos read chars ≠ .error (.tooDeep limit) := by
  induction chars generalizing skip pos read with
  | nil => simp [scanFrom]
  | cons c rest ih =>
    cases skip with
    | succ skip => exact ih
    | zero =>
      rw [scanFrom]
      split
      · exact ih
      · split
        · simp
        · split
          · simp
          · exact ih

/-- Characters of a word already read are passed over. -/
theorem wordsFrom_skip (front rest : List Char) :
    wordsFrom front.length (front ++ rest) = wordsFrom 0 rest := by
  induction front with
  | nil => rfl
  | cons c front ih => exact ih

/-- A word is read with as many characters as it takes, unless it is a lone name. -/
theorem wordsFrom_lexeme {c : Char} {tail rest : List Char} {l : Lexeme} (hc : isBlank c = false)
    (hl : lexeme? c (tail ++ rest) = some (l, tail.length))
    (hlone : isLoneName c tail.length = false) :
    wordsFrom 0 (c :: (tail ++ rest)) = (wordsFrom 0 rest).map (l :: ·) := by
  rw [wordsFrom, hc, hl]
  simp only [Bool.false_eq_true, if_false, hlone]
  rw [wordsFrom_skip]

/-! ## Names -/

/-- A scan of the text gives the text as one name. -/
def IsName (s : String) : Prop :=
  (scan s).map (List.map Token.lexeme) = .ok [.name s]

instance (s : String) : Decidable (IsName s) :=
  inferInstanceAs (Decidable (_ = _))

/-- Blanks are no part of names. -/
theorem continuesName_of_isBlank {c : Char} (h : isBlank c = true) : continuesName c = false := by
  obtain ⟨r, hr, hlow, hhigh⟩ := inRanges_iff.1 h
  have hall : ∀ r ∈ blankRanges, ∀ n ∈ List.range' r.1 (r.2 + 1 - r.1),
      continuesName (Char.ofNat n) = false := by
    decide +kernel
  have hc := hall r hr c.toNat (by rw [List.mem_range'_1]; omega)
  rwa [Char.ofNat_toNat] at hc

/-- No name begins with a blank. -/
theorem isBlank_of_beginsName {c : Char} (h : beginsName c = true) : isBlank c = false := by
  by_contra hblank
  have hcontinues := continuesName_of_isBlank (Bool.not_eq_false _ ▸ hblank)
  rw [continuesName_of_beginsName h] at hcontinues
  exact nomatch hcontinues

section Characters

variable {c : Char} {tail rest : List Char}

/-- A name is read up to its end, and the scan goes on behind it, unless it is a single character
outside ASCII. -/
theorem wordsFrom_name (hbegins : beginsName c = true) (htail : ∀ d ∈ tail, continuesName d = true)
    (hends : ∀ d ∈ rest.head?, continuesName d = false) :
    wordsFrom 0 (c :: (tail ++ rest)) =
      if isLoneName c tail.length then none
      else (wordsFrom 0 rest).map (.name (String.ofList (c :: tail)) :: ·) := by
  rw [wordsFrom, isBlank_of_beginsName hbegins, lexeme?_of_beginsName hbegins,
    takeWhile_name htail hends]
  simp only [Bool.false_eq_true, if_false, wordsFrom_skip]

/-- What is formed as names are is a name, unless it is a single character outside ASCII. -/
theorem isName_of_chars (hbegins : beginsName c = true)
    (htail : ∀ d ∈ tail, continuesName d = true) (hlone : isLoneName c tail.length = false) :
    IsName (String.ofList (c :: tail)) := by
  have hwords := @wordsFrom_name c tail [] hbegins htail (by simp)
  rw [List.append_nil, hlone] at hwords
  obtain ⟨tokens, hscan, hname⟩ := scan_eq_ok_iff.2
    (show wordsFrom 0 (String.ofList (c :: tail)).toList = some [.name (String.ofList (c :: tail))]
      from by rw [String.toList_ofList, hwords]; rfl)
  rw [IsName, hscan]
  exact congrArg Except.ok hname

end Characters

/-- A name begins and goes on as names do, and is no single character outside ASCII. -/
theorem IsName.exists_chars {s : String} (h : IsName s) :
    ∃ c rest, s.toList = c :: rest ∧ beginsName c = true ∧ (∀ d ∈ rest, continuesName d = true) ∧
      isLoneName c rest.length = false := by
  unfold IsName at h
  cases hscan : scan s with
  | error e =>
    rw [hscan] at h
    exact nomatch h
  | ok tokens =>
    rw [hscan] at h
    have hwords : tokens.map Token.lexeme = [.name s] := Except.ok.inj h
    obtain ⟨t, rfl, ht⟩ := List.map_eq_singleton_iff.1 hwords
    have hscanned : (Lexeme.name s).Scanned := ht ▸ scan_scanned hscan t (by simp)
    obtain ⟨c, rest, hs, hbegins, hrest⟩ := hscanned
    have hchars : s.toList = c :: rest := by
      rw [hs, String.toList_ofList]
    refine ⟨c, rest, hchars, hbegins, hrest, ?_⟩
    -- a lone character would have made the scan fail
    by_contra hlone
    have hfail := @wordsFrom_name c rest [] hbegins hrest (by simp)
    rw [if_pos (Bool.not_eq_false _ ▸ hlone), List.append_nil, ← hchars, ← scan_words,
      hscan] at hfail
    exact nomatch hfail

/-- What is read as a name is formed as one. -/
theorem IsName.scanned {s : String} (h : IsName s) : (Lexeme.name s).Scanned := by
  obtain ⟨c, tail, hchars, hbegins, htail, -⟩ := h.exists_chars
  exact ⟨c, tail, by rw [← hchars, String.ofList_toList], hbegins, htail⟩

/-! ## Pieces of text -/

/-- The characters, if there are any, continue no name and no sign. -/
def Ends (chars : List Char) : Prop :=
  ∀ c ∈ chars.head?, continuesName c = false ∧ c ≠ '='

theorem ends_nil : Ends [] := by
  simp [Ends]

/-- Two pieces end a word if the first does, or if it is empty and the second does. -/
theorem Ends.append {a b : List Char} (ha : Ends a) (hb : Ends b) : Ends (a ++ b) := by
  cases a with
  | nil => exact hb
  | cons c a => exact ha

/-- In front of anything that does not continue them, the characters are read as these words;
if there are none, the scan fails. -/
def Scans (chars : List Char) (words : Option (List Lexeme)) : Prop :=
  ∀ rest, Ends rest →
    wordsFrom 0 (chars ++ rest) = words.bind fun ws => (wordsFrom 0 rest).map (ws ++ ·)

namespace Scans

variable {a b : List Char} {ws ws' : Option (List Lexeme)}

/-- On their own the characters are read as these words. -/
theorem wordsFrom_eq (h : Scans a ws) : wordsFrom 0 a = ws := by
  have hall := h [] ends_nil
  rw [List.append_nil] at hall
  rw [hall]
  cases ws <;> simp [wordsFrom]

theorem nil : Scans [] (some []) := by
  intro rest _
  cases h : wordsFrom 0 rest <;> simp [h]

/-- Pieces of which the second does not continue the first. -/
theorem append (ha : Scans a ws) (hb : Scans b ws') (hends : Ends b) :
    Scans (a ++ b) (ws.bind fun x => ws'.map (x ++ ·)) := by
  intro rest hrest
  rw [List.append_assoc, ha (b ++ rest) (hends.append hrest), hb rest hrest]
  cases ws with
  | none => rfl
  | some x =>
    cases ws' with
    | none => rfl
    | some y =>
      cases wordsFrom 0 rest <;> simp

theorem blank (hb : Scans b ws) : Scans (' ' :: b) ws := by
  intro rest hrest
  rw [← hb rest hrest]
  rfl

/-- A word that is read as it is in front of anything that does not continue it. -/
theorem word {c : Char} {tail : List Char} {l : Lexeme} (hc : isBlank c = false)
    (hlone : isLoneName c tail.length = false)
    (hl : ∀ rest, Ends rest → lexeme? c (tail ++ rest) = some (l, tail.length)) :
    Scans (c :: tail) (some [l]) :=
  fun rest hrest => wordsFrom_lexeme hc (hl rest hrest) hlone

/-- A sign that is one character in front of the rest of the text. -/
theorem sign {c : Char} {l : Lexeme} (hc : isBlank c = false) (hlone : isLoneName c 0 = false)
    (hl : ∀ rest, Ends rest → lexeme? c (b ++ rest) = some (l, 0)) (hb : Scans b ws) :
    Scans (c :: b) (ws.map (l :: ·)) := by
  intro rest hrest
  have hstep : wordsFrom 0 (c :: (b ++ rest)) = (wordsFrom 0 (b ++ rest)).map (l :: ·) :=
    @wordsFrom_lexeme c [] (b ++ rest) l hc (hl rest hrest) hlone
  rw [List.cons_append, hstep, hb rest hrest]
  cases ws with
  | none => rfl
  | some x => cases wordsFrom 0 rest <;> simp

theorem dot (hb : Scans b ws) : Scans ('.' :: b) (ws.map (.dot :: ·)) :=
  hb.sign (by decide) (by decide +kernel) fun _ _ => rfl

theorem leftParen (hb : Scans b ws) : Scans ('(' :: b) (ws.map (.leftParen :: ·)) :=
  hb.sign (by decide) (by decide +kernel) fun _ _ => rfl

theorem rightParen (hb : Scans b ws) : Scans (')' :: b) (ws.map (.rightParen :: ·)) :=
  hb.sign (by decide) (by decide +kernel) fun _ _ => rfl

theorem param (hb : Scans b ws) : Scans ('?' :: b) (ws.map (.param :: ·)) :=
  hb.sign (by decide) (by decide +kernel) fun _ _ => rfl

theorem junction (kind : Junction) (hb : Scans b ws) :
    Scans (kind.symbol.toList ++ b) (ws.map (signOf kind :: ·)) := by
  cases kind
  · exact hb.sign (by decide) (by decide +kernel) fun _ _ => rfl
  · exact hb.sign (by decide) (by decide +kernel) fun _ _ => rfl

/-- An exclamation mark, if no equals sign makes it an operator. -/
theorem not (hhead : b.head? ≠ some '=') (hb : Scans b ws) :
    Scans ('!' :: b) (ws.map (.not :: ·)) := by
  refine hb.sign (by decide) (by decide +kernel) fun rest hrest => ?_
  have hnext : (b ++ rest).head? ≠ some '=' := by
    cases b with
    | nil => exact fun h => (hrest '=' h).2 rfl
    | cons d b => exact hhead
  exact congrArg some (if_neg hnext)

/-- An operator is read as one word, the longest that stands there. -/
theorem op (op : RelOp) : Scans op.symbol.toList (some [.op op]) := by
  -- `<` and `>` are read as they are, for no equals sign follows
  have hnext : ∀ {rest : List Char}, Ends rest → rest.head? ≠ some '=' :=
    fun hrest h => (hrest '=' h).2 rfl
  cases op with
  | eq => exact word (by decide) (by decide +kernel) fun _ _ => rfl
  | ne => exact word (by decide) (by decide +kernel) fun _ _ => rfl
  | lt => exact word (by decide) (by decide +kernel) fun _ h => congrArg some (if_neg (hnext h))
  | le => exact word (by decide) (by decide +kernel) fun _ _ => rfl
  | gt => exact word (by decide) (by decide +kernel) fun _ h => congrArg some (if_neg (hnext h))
  | ge => exact word (by decide) (by decide +kernel) fun _ _ => rfl

/-- What is formed as names are is read as one name, or stops the scan. -/
theorem formed {s : String} (h : (Lexeme.name s).Scanned) :
    Scans s.toList (if IsName s then some [.name s] else none) := by
  obtain ⟨c, tail, rfl, hbegins, htail⟩ := h
  intro rest hrest
  rw [String.toList_ofList, List.cons_append,
    wordsFrom_name hbegins htail fun d hd => (hrest d hd).1]
  by_cases hname : IsName (String.ofList (c :: tail))
  · obtain ⟨c', tail', hchars, -, -, hlone⟩ := hname.exists_chars
    rw [String.toList_ofList] at hchars
    obtain ⟨rfl, rfl⟩ := List.cons.inj hchars
    rw [if_pos hname, hlone]
    rfl
  · have hlone : isLoneName c tail.length = true := by
      by_contra hne
      exact hname (isName_of_chars hbegins htail (Bool.not_eq_true _ ▸ hne))
    rw [if_neg hname, if_pos hlone]
    rfl

theorem name {s : String} (h : IsName s) : Scans s.toList (some [.name s]) := by
  have hformed := formed h.scanned
  rwa [if_pos h] at hformed

end Scans

end RowFilter.Grammar
