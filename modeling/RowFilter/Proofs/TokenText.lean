import Mathlib.Data.List.TakeWhile
import RowFilter.Grammar.Scan

/-!
# The text of tokens

The words of a text with single spaces between them determine the words again: none of them
contains a space, and a spelling read on its own gives its word back. So two texts with one
token text differ in blanks only.
-/

namespace RowFilter

open RowFilter.Grammar

/-- A word that a scan can give: names begin and go on as names do, and the end of the text is
no word of it. -/
def Lexeme.Scanned : Lexeme → Prop
  | .name s => ∃ c rest, s = String.ofList (c :: rest) ∧ beginsName c = true ∧
      ∀ d ∈ rest, continuesName d = true
  | .stop => False
  | _ => True

/-! ## What words begin with -/

namespace Grammar

variable {c : Char} {tail rest : List Char}

/-- A character that a word begins with. -/
def beginsWord (c : Char) : Bool :=
  c ∈ ['.', '(', ')', '&', '|', '?', '=', '!', '<', '>'] || beginsName c

/-- There is a word exactly where one can begin. -/
theorem lexeme?_eq_none_iff : lexeme? c rest = none ↔ beginsWord c = false := by
  unfold lexeme?
  split
  case h_11 =>
    rw [ite_eq_right_iff]
    simp only [beginsWord, List.mem_cons, List.not_mem_nil, reduceCtorEq, imp_false]
    grind
  all_goals simp [beginsWord]

/-- A sign is no beginning of a name, so the beginning of a name is read as a name. -/
theorem lexeme?_of_beginsName (h : beginsName c = true) :
    lexeme? c rest = some (.name (String.ofList (c :: rest.takeWhile continuesName)),
      (rest.takeWhile continuesName).length) := by
  unfold lexeme?
  split
  case h_11 => rw [if_pos h]
  all_goals exact absurd h (by decide +kernel)

/-- All the characters of a name are taken in, and no more. -/
theorem takeWhile_name (htail : ∀ d ∈ tail, continuesName d = true)
    (hends : ∀ d ∈ rest.head?, continuesName d = false) :
    (tail ++ rest).takeWhile continuesName = tail := by
  rw [List.takeWhile_append_of_pos htail]
  cases rest with
  | nil => simp
  | cons d rest =>
    rw [List.takeWhile_cons_of_neg (by simp [hends d rfl]), List.append_nil]

end Grammar

/-! ## What a scan gives -/

theorem lexeme?_scanned {c : Char} {rest : List Char} {l : Lexeme} {more : Nat}
    (h : lexeme? c rest = some (l, more)) : l.Scanned := by
  unfold lexeme? extensible at h
  split at h
  -- a name must be shown to go on as names do; every sign is a word as it is
  case h_11 =>
    split at h
    · next hbegins =>
      obtain ⟨rfl, -⟩ := Prod.mk.inj (Option.some.inj h)
      exact ⟨c, _, rfl, hbegins, fun d hd => List.mem_takeWhile_imp hd⟩
    · exact nomatch h
  case h_8 | h_9 | h_10 =>
    split at h <;> obtain ⟨rfl, -⟩ := Prod.mk.inj (Option.some.inj h) <;> exact trivial
  all_goals
    obtain ⟨rfl, -⟩ := Prod.mk.inj (Option.some.inj h)
    exact trivial

theorem scanFrom_scanned {text : String} {skip pos : Nat} {read tokens : List Token}
    {chars : List Char} (hread : ∀ t ∈ read, t.lexeme.Scanned)
    (h : scanFrom text skip pos read chars = .ok tokens) : ∀ t ∈ tokens, t.lexeme.Scanned := by
  induction chars generalizing skip pos read with
  | nil =>
    simp only [scanFrom] at h
    obtain rfl := Except.ok.inj h
    simpa using hread
  | cons c rest ih =>
    cases skip with
    | succ skip => exact ih hread h
    | zero =>
      simp only [scanFrom] at h
      split at h
      · exact ih hread h
      · split at h
        · exact nomatch h
        · next l more hl =>
          split at h
          · exact nomatch h
          · refine ih (fun t ht => ?_) h
            rcases List.mem_cons.1 ht with rfl | ht
            · exact lexeme?_scanned hl
            · exact hread t ht

theorem scan_scanned {text : String} {tokens : List Token} (h : scan text = .ok tokens) :
    ∀ t ∈ tokens, t.lexeme.Scanned :=
  scanFrom_scanned (by simp) h

/-! ## Spellings -/

theorem Lexeme.Scanned.continuesName_of_mem {s : String} (h : (Lexeme.name s).Scanned) :
    ∀ c ∈ s.toList, continuesName c = true := by
  obtain ⟨c, rest, rfl, hbegins, hrest⟩ := h
  rw [String.toList_ofList]
  intro d hd
  rcases List.mem_cons.1 hd with rfl | hd
  · exact continuesName_of_beginsName hbegins
  · exact hrest d hd

/-- No sign stands in a name. -/
theorem Lexeme.Scanned.notMem_of_sign {s : String} (h : (Lexeme.name s).Scanned) {c : Char}
    (hc : continuesName c = false) : c ∉ s.toList := by
  intro hmem
  rw [h.continuesName_of_mem c hmem] at hc
  cases hc

/-- A spelling, read on its own, gives the word and is read to its end. -/
theorem Lexeme.Scanned.lexeme?_spelling {l : Lexeme} (h : l.Scanned) :
    ∃ c rest, l.spelling.toList = c :: rest ∧ lexeme? c rest = some (l, rest.length) := by
  cases l with
  | name s =>
    obtain ⟨c, rest, rfl, hbegins, hrest⟩ := h
    refine ⟨c, rest, String.toList_ofList, ?_⟩
    -- the name is read to its end
    have htail : rest.takeWhile continuesName = rest := List.takeWhile_eq_self_iff.2 hrest
    rw [lexeme?_of_beginsName hbegins, htail]
  | op o => cases o <;> exact ⟨_, _, rfl, rfl⟩
  | stop => exact h.elim
  | _ => exact ⟨_, _, rfl, rfl⟩

theorem Lexeme.Scanned.eq_of_spelling_eq {l l' : Lexeme} (h : l.Scanned) (h' : l'.Scanned)
    (heq : l.spelling = l'.spelling) : l = l' := by
  obtain ⟨c, rest, hspelling, hl⟩ := h.lexeme?_spelling
  obtain ⟨c', rest', hspelling', hl'⟩ := h'.lexeme?_spelling
  rw [heq, hspelling'] at hspelling
  obtain ⟨rfl, rfl⟩ := List.cons.inj hspelling
  rw [hl] at hl'
  exact (Prod.mk.inj (Option.some.inj hl')).1

theorem Lexeme.Scanned.blank_notMem {l : Lexeme} (h : l.Scanned) : ' ' ∉ l.spelling.toList := by
  cases l with
  | name s => exact h.notMem_of_sign (by decide +kernel)
  | op o => cases o <;> decide
  | stop => exact h.elim
  | _ => decide

/-! ## Token texts -/

theorem map_spelling_injective {ls ls' : List Lexeme} (h : ∀ l ∈ ls, l.Scanned)
    (h' : ∀ l ∈ ls', l.Scanned) (heq : ls.map Lexeme.spelling = ls'.map Lexeme.spelling) :
    ls = ls' := by
  induction ls generalizing ls' with
  | nil => exact (List.map_eq_nil_iff.1 heq.symm).symm
  | cons l ls ih =>
    obtain ⟨l', rest, rfl, hl, hrest⟩ := List.map_eq_cons_iff.1 heq.symm
    have hhead : l = l' := (h l (by simp)).eq_of_spelling_eq (h' l' (by simp)) hl.symm
    have htail : ls = rest :=
      ih (fun k hk => h k (by simp [hk])) (fun k hk => h' k (by simp [hk])) hrest.symm
    rw [hhead, htail]

/-- Words with a separator between them begin with the first of them. -/
theorem head?_intercalate {sep w : String} {ws : List String} (hw : w ≠ "") :
    (sep.intercalate (w :: ws)).toList.head? = w.toList.head? := by
  obtain ⟨c, rest, hchars⟩ := List.exists_cons_of_ne_nil (mt String.toList_eq_nil_iff.1 hw)
  cases ws with
  | nil => rw [String.intercalate_singleton]
  | cons w' ws =>
    rw [String.intercalate_cons_cons, String.append_assoc, String.toList_append, hchars]
    rfl

/-- Words without the separator in them are known from what they make with the separator between
them. -/
theorem eq_of_intercalate_eq {c : Char} {ws ws' : List String}
    (h : ∀ w ∈ ws, c ∉ w.toList ∧ w ≠ "") (h' : ∀ w ∈ ws', c ∉ w.toList ∧ w ≠ "")
    (heq : (String.singleton c).intercalate ws = (String.singleton c).intercalate ws') :
    ws = ws' := by
  have hsplit := String.toList_split_intercalate fun w hw => (h w hw).1
  have hsplit' := String.toList_split_intercalate fun w hw => (h' w hw).1
  rw [heq, hsplit'] at hsplit
  -- no words at all split into one empty word, which is none of the words
  split at hsplit <;> split at hsplit
  · next hnil' hnil => rw [hnil, hnil']
  · obtain ⟨-, hne⟩ := h "" (by simp [← hsplit])
    exact absurd rfl hne
  · obtain ⟨-, hne⟩ := h' "" (by simp [hsplit])
    exact absurd rfl hne
  · exact hsplit.symm

/-- Two lists of words with one text are one list. -/
theorem lexemes_eq_of_text_eq {tokens tokens' : List Token}
    (h : ∀ t ∈ tokens, t.lexeme.Scanned) (h' : ∀ t ∈ tokens', t.lexeme.Scanned)
    (heq : Token.text tokens = Token.text tokens') :
    tokens.map Token.lexeme = tokens'.map Token.lexeme := by
  have hwords : ∀ {tokens : List Token}, (∀ t ∈ tokens, t.lexeme.Scanned) →
      ∀ w ∈ tokens.map fun t => t.lexeme.spelling, ' ' ∉ w.toList ∧ w ≠ "" := by
    intro tokens h w hw
    obtain ⟨t, ht, rfl⟩ := List.mem_map.1 hw
    obtain ⟨c, rest, hspelling, -⟩ := (h t ht).lexeme?_spelling
    refine ⟨(h t ht).blank_notMem, fun hempty => ?_⟩
    rw [hempty] at hspelling
    exact nomatch hspelling
  have hspellings : (tokens.map fun t => t.lexeme.spelling) =
      tokens'.map fun t => t.lexeme.spelling :=
    eq_of_intercalate_eq (hwords h) (hwords h') heq
  refine map_spelling_injective (by simpa using h) (by simpa using h') ?_
  rw [List.map_map, List.map_map]
  exact hspellings

end RowFilter
