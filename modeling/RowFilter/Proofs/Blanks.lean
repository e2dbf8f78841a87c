import RowFilter.Proofs.Complements
import RowFilter.Proofs.Positions
import RowFilter.Proofs.RoundTrip
import RowFilter.Proofs.Tiling

/-!
# Blanks make no difference

A text is remembered by its words with single spaces between them. That stands for the words and
for nothing else: no two lists of words are written alike, and what is written is read as the words
again. And what a text is read as depends on its words alone, so what is remembered for one text
may be handed out for another with the same words.
-/

namespace RowFilter

open RowFilter.Grammar RowFilter.Text

/-! ## Whole texts as pieces -/

/-- A word that ends where its text does also ends in front of what continues no word. -/
theorem Lexeme.EndsBefore.append {l : Lexeme} {behind rest : List Char}
    (h : l.EndsBefore behind) (hrest : Ends rest) : l.EndsBefore (behind ++ rest) := by
  cases behind with
  | cons c behind => exact h
  | nil =>
    have hsign : rest.head? ≠ some '=' := fun heq => (hrest '=' heq).2 rfl
    cases l with
    | name s => exact fun c hc => (hrest c hc).1
    | not => exact hsign
    | op o => cases o <;> first | exact trivial | exact hsign
    | _ => exact trivial

theorem Token.text_eq (tokens : List Token) :
    Token.text tokens = " ".intercalate ((tokens.map Token.lexeme).map Lexeme.spelling) := by
  rw [List.map_map]
  rfl

namespace Grammar

/-- The words of a text stay what they are in front of what continues no word. -/
theorem scans_of_wordsFrom {a : List Char} {ws : List Lexeme} (h : wordsFrom 0 a = some ws) :
    Scans a (some ws) := by
  intro rest hrest
  induction hlength : a.length using Nat.strong_induction_on generalizing a ws
  case h n ih =>
  cases a with
  | nil =>
    obtain rfl : [] = ws := Option.some.inj h
    cases hwords : wordsFrom 0 rest <;> simp [hwords]
  | cons c more =>
    subst hlength
    rw [wordsFrom] at h
    split at h
    · next hblank =>
      rw [List.cons_append, wordsFrom, if_pos hblank]
      exact ih more.length (Nat.lt_succ_self _) h rfl
    · next hblank =>
      cases hl : lexeme? c more with
      | none => simp [hl] at h
      | some found =>
        obtain ⟨l, skip⟩ := found
        simp only [hl] at h
        split at h
        · cases h
        · next hlone =>
          obtain ⟨tail, behind, rfl, rfl, hchars, hends⟩ := Lexeme.ends_of_lexeme? hl
          rw [wordsFrom_skip, Option.map_eq_some_iff] at h
          obtain ⟨ws', hws', rfl⟩ := h
          -- the first word is read as before, and the rest by induction
          obtain ⟨c', tail', hchars', hblank', hl'⟩ :=
            (lexeme?_scanned hl).lexeme?_append (hends.append hrest)
          obtain ⟨rfl, rfl⟩ := List.cons.inj (hchars.symm.trans hchars')
          have hshorter : behind.length < (c :: (tail ++ behind)).length := by
            simp only [List.length_cons, List.length_append]
            omega
          rw [List.cons_append, List.append_assoc,
            wordsFrom_lexeme hblank' hl' (Bool.not_eq_true _ ▸ hlone), ih _ hshorter hws' rfl]
          cases wordsFrom 0 rest <;> simp

/-- A word that a scan gives is read from its spelling. -/
theorem scans_spelling {l : Lexeme} (h : l.Scanned) (hlone : ¬ l.IsLone) :
    Scans l.spelling.toList (some [l]) := by
  obtain ⟨c, tail, hchars, hl⟩ := h.lexeme?_spelling
  have hblank : isBlank c = false := h.isBlank_eq_false c (by simp [hchars])
  have hmore : isLoneName c tail.length = false := by
    rwa [← Bool.not_eq_true, h.isLoneName_iff hchars]
  have hword : wordsFrom 0 (c :: (tail ++ [])) = (wordsFrom 0 []).map (l :: ·) :=
    wordsFrom_lexeme hblank (by rwa [List.append_nil]) hmore
  rw [hchars]
  exact scans_of_wordsFrom (by simpa [wordsFrom] using hword)

/-- Words with single spaces between them are read again, if each is on its own. -/
theorem scans_intercalate {ls : List Lexeme}
    (h : ∀ l ∈ ls, Scans l.spelling.toList (some [l])) :
    Scans (" ".intercalate (ls.map Lexeme.spelling)).toList (some ls) := by
  induction ls with
  | nil => exact .nil
  | cons l ls ih =>
    have hl : Scans l.spelling.toList (some [l]) := h l List.mem_cons_self
    cases ls with
    | nil => simpa using hl
    | cons l' ls =>
      have hrest := ih fun k hk => h k (List.mem_cons_of_mem _ hk)
      have hboth := hl.append hrest.blank (ends_blank _)
      simpa [String.toList_append, List.append_assoc] using hboth

/-- The text of the tokens of a text has the same words. -/
theorem scan_text_of_scan {text : String} {tokens : List Token} (h : scan text = .ok tokens) :
    ∃ again, scan (Token.text tokens) = .ok again ∧
      again.map Token.lexeme = tokens.map Token.lexeme := by
  obtain ⟨htiled, hlone⟩ := tiled_of_scan h
  have hscans : Scans (Token.text tokens).toList (some (tokens.map Token.lexeme)) := by
    rw [Token.text_eq]
    refine scans_intercalate fun l hl => ?_
    obtain ⟨t, ht, rfl⟩ := List.mem_map.1 hl
    exact scans_spelling (htiled.scanned ht) (hlone t ht)
  exact scan_eq_ok_iff.2 hscans.wordsFrom_eq

end Grammar

/-! ## Reading the same words -/

/-- The error without the place it is about. -/
def FilterError.unplaced : FilterError → FilterError
  | .malformed flaw _ _ => .malformed flaw .zero ""
  | e => e

/-- Any bytes correspond, and errors that are alike but for their places. -/
def Correspondence.anywhere (text text' : String) : Correspondence text text' where
  span _ _ := True
  error e e' := e.unplaced = e'.unplaced
  zero := trivial
  stop := trivial
  merge _ _ := trivial
  malformed _ _ := rfl
  other _ := rfl

namespace Correspondence

variable {text text' : String}

theorem anywhere_tokensAlike {tokens tokens' : List Token}
    (h : tokens.map Token.lexeme = tokens'.map Token.lexeme) :
    (anywhere text text').TokensAlike tokens tokens' := by
  induction tokens generalizing tokens' with
  | nil =>
    obtain rfl := List.map_eq_nil_iff.1 h.symm
    exact .nil
  | cons t tokens ih =>
    obtain ⟨t', rest', rfl, ht, hrest⟩ := List.map_eq_cons_iff.1 h.symm
    exact .cons ⟨ht.symm, trivial⟩ (ih hrest.symm)

theorem Alike.mapError_eq {f g : Except FilterError Filter}
    (h : (anywhere text text').Alike SameProper f g) :
    f.mapError FilterError.unplaced = g.mapError FilterError.unplaced := by
  cases f <;> cases g
  · exact congrArg Except.error h
  · exact h.elim
  · exact h.elim
  · exact congrArg Except.ok h.1

end Correspondence

variable {ctx : Context} {text text' : String} {tokens tokens' : List Token}

/-- Texts with the same words are parsed as the same filter, or fail alike. -/
theorem Context.parse_of_words (hscan : scan text = .ok tokens) (hscan' : scan text' = .ok tokens')
    (hwords : tokens.map Token.lexeme = tokens'.map Token.lexeme) (entity : String) :
    (ctx.parse entity text).mapError FilterError.unplaced =
      (ctx.parse entity text').mapError FilterError.unplaced := by
  cases he : ctx.entity entity with
  | error e =>
    unfold Context.parse
    rw [he]
    rfl
  | ok e =>
    rw [parse_eq he, parse_eq he, hscan, hscan']
    have halike : (Correspondence.anywhere text text').TokensAlike tokens tokens' :=
      Correspondence.anywhere_tokensAlike hwords
    exact (Correspondence.wholeFilter_alike halike).mapError_eq

namespace Pool

variable {pool : Pool} {held : List Instance}

/-! ## Parsing in a session -/

/-- In a session the text that a filter is remembered by stands for the words and for nothing
else, and is read as the same words. And texts with the same words are parsed as the same instance,
or fail for the same reason, whatever was parsed and remembered before and in between. -/
theorem Reached.parse_by_words (h : Reached ctx pool held) (hscan : scan text = .ok tokens)
    (hscan' : scan text' = .ok tokens') :
    (Token.text tokens = Token.text tokens' ↔
        tokens.map Token.lexeme = tokens'.map Token.lexeme) ∧
      (∃ again, scan (Token.text tokens) = .ok again ∧
        again.map Token.lexeme = tokens.map Token.lexeme) ∧
      (tokens.map Token.lexeme = tokens'.map Token.lexeme →
        ∀ (entity : String) {pool' : Pool} {held' : List Instance},
          Leads ctx ((serve ctx (.parse entity text)).run pool).2
            (handedOut ((serve ctx (.parse entity text)).run pool).1 ++ held) pool' held' →
          ((serve ctx (.parse entity text)).run pool).1.mapError FilterError.unplaced =
            ((serve ctx (.parse entity text')).run pool').1.mapError FilterError.unplaced) := by
  refine ⟨⟨lexemes_eq_of_text_eq (scan_scanned hscan) (scan_scanned hscan'), fun hwords => ?_⟩,
    scan_text_of_scan hscan, fun hwords entity pool' held' hleads => ?_⟩
  · rw [Token.text_eq, hwords, ← Token.text_eq]
  · have hparse : (ctx.parse entity text).mapError FilterError.unplaced =
        (ctx.parse entity text').mapError FilterError.unplaced :=
      Context.parse_of_words hscan hscan' hwords entity
    have hreached : Reached ctx pool' held' :=
      hleads.reached (.served _ (by simp [Query.arguments]) h)
    cases hfirst : ctx.parse entity text <;> cases hsecond : ctx.parse entity text' <;>
      rw [hfirst, hsecond] at hparse
    case error.error e e' =>
      rw [h.parse_error_iff.2 hfirst, hreached.parse_error_iff.2 hsecond]
      exact congrArg Except.error (Except.error.inj hparse)
    case ok.ok f f' =>
      obtain rfl : f = f' := Except.ok.inj hparse
      -- the first parse hands the instance out, and it is held from then on
      obtain ⟨g, pool₁, hrun, rfl, -⟩ := h.parse_ok hfirst
      rw [hrun] at hleads ⊢
      have hg : g ∈ held' := hleads.mem g (by simp [handedOut])
      obtain ⟨pool₂, hrun'⟩ := hreached.parse_held hg hsecond
      rw [hrun']
    all_goals cases hparse

/-- The sample text without its blanks, with which it shares its words. -/
def Sample.dense : String := "total=?&!lines((order).total>?)"

theorem Sample.parsed_dense :
    Token.text Sample.tokens = "total = ? & ! lines ( ( order ) . total > ? )" ∧
      ((serve Sample.context Sample.request).run empty).1.mapError FilterError.unplaced =
        ((serve Sample.context (.parse "order" Sample.dense)).run Sample.after).1.mapError
          FilterError.unplaced := by
  obtain ⟨dense, hdense⟩ : ∃ dense, scan Sample.dense = .ok dense ∧
      Sample.tokens.map Token.lexeme = dense.map Token.lexeme :=
    ⟨(scan Sample.dense).toOption.getD [], by decide +kernel, by decide +kernel⟩
  have hscan : scan Sample.text = .ok Sample.tokens := by decide +kernel
  refine ⟨by decide +kernel, ?_⟩
  exact (Reached.parse_by_words .start hscan hdense.1).2.2 hdense.2 "order" .refl

end Pool

end RowFilter
