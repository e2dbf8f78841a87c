import RowFilter.Proofs.Scanning

/-!
# Words that tile a text

The words of a text, each as long as it can be, lie one behind the other with nothing but blanks
between them. A scan finds these words and no others. It comes to an end before the text does at the
first character behind a word or a blank that is no blank and begins no word, and, without a report,
at a name that is a single character outside ASCII.

All this is said of a text by its characters: how far they are tiled (`Tiled`), and what the tiling
stops at (`StopsAt`). How the scan goes about it follows from the steps it takes over one blank and
over one word.
-/

namespace RowFilter

open RowFilter.Grammar RowFilter.Text

/-! ## Bytes of characters -/

namespace Grammar

@[simp] theorem byteLength_nil : byteLength [] = 0 := rfl

@[simp] theorem byteLength_cons (c : Char) (cs : List Char) :
    byteLength (c :: cs) = c.utf8Size + byteLength cs := rfl

/-- The bytes of two pieces are those of the one and those of the other. -/
@[simp] theorem byteLength_append (a b : List Char) :
    byteLength (a ++ b) = byteLength a + byteLength b := by
  induction a with
  | nil => simp
  | cons c a ih =>
    rw [List.cons_append, byteLength_cons, byteLength_cons, ih]
    omega

/-- Every character takes a byte at least. -/
theorem byteLength_pos {cs : List Char} (h : cs ≠ []) : 0 < byteLength cs := by
  obtain ⟨c, rest, rfl⟩ := List.exists_cons_of_ne_nil h
  have hc : 0 < c.utf8Size := c.utf8Size_pos
  rw [byteLength_cons]
  omega

/-- The characters of a text take as many bytes as the text has. -/
theorem byteLength_toList (text : String) : byteLength text.toList = text.utf8ByteSize := by
  have hchars : ∀ cs : List Char, byteLength cs = (String.ofList cs).utf8ByteSize := by
    intro cs
    induction cs with
    | nil => rfl
    | cons c cs ih => rw [byteLength_cons, ih, String.ofList_cons, String.utf8ByteSize_append,
        String.utf8ByteSize_singleton]
  rw [hchars, String.ofList_toList]

/-- Of two cuts through the same characters, the one at the smaller offset is in front. -/
theorem exists_between {a b c d : List Char} (h : a ++ b = c ++ d)
    (hle : byteLength a ≤ byteLength c) : ∃ mid, c = a ++ mid ∧ b = mid ++ d := by
  rcases List.append_eq_append_iff.1 h with ⟨mid, hc, hb⟩ | ⟨mid, ha, hd⟩
  · exact ⟨mid, hc, hb⟩
  · have hnil : mid = [] := by
      by_contra hne
      have hpos := byteLength_pos hne
      rw [ha, byteLength_append] at hle
      omega
    rw [hnil, List.append_nil] at ha
    rw [hnil, List.nil_append] at hd
    exact ⟨[], by simp [ha], by simp [hd]⟩

/-- What the last character is, the second of two parts ends with it, unless it is empty. -/
theorem exists_eq_snoc {a b before : List Char} {c : Char} (h : before ++ [c] = a ++ b)
    (hb : b ≠ []) : ∃ b', b = b' ++ [c] ∧ before = a ++ b' := by
  obtain ⟨b', d, rfl⟩ := (List.eq_nil_or_concat b).resolve_left hb
  rw [List.concat_eq_append] at h ⊢
  rw [← List.append_assoc] at h
  obtain ⟨hbefore, hd⟩ := List.append_inj' h rfl
  exact ⟨b', by rw [hd], hbefore⟩

end Grammar

/-! ## Words that go no further -/

/-- What stands behind the word does not continue it. -/
def Lexeme.EndsBefore (l : Lexeme) (behind : List Char) : Prop :=
  match l with
  | .name _ => ∀ c ∈ behind.head?, continuesName c = false
  | .not | .op .lt | .op .gt => behind.head? ≠ some '='
  | _ => True

/-- The word is a name of a single character outside ASCII. -/
def Lexeme.IsLone (l : Lexeme) : Prop :=
  ∃ s c, l = .name s ∧ s.toList = [c] ∧ 1 < c.utf8Size

namespace Lexeme

variable {l l' : Lexeme} {c : Char} {tail rest behind : List Char}

/-- A word is read in front of what does not continue it. -/
theorem Scanned.lexeme?_append (h : l.Scanned) (hends : l.EndsBefore rest) :
    ∃ c tail, l.spelling.toList = c :: tail ∧ isBlank c = false ∧
      lexeme? c (tail ++ rest) = some (l, tail.length) := by
  cases l with
  | name s =>
    obtain ⟨c, tail, rfl, hbegins, htail⟩ := h
    refine ⟨c, tail, String.toList_ofList, isBlank_of_beginsName hbegins, ?_⟩
    rw [lexeme?_of_beginsName hbegins, takeWhile_name htail hends]
  | op o =>
    cases o with
    | lt => exact ⟨'<', [], rfl, by decide, congrArg some (if_neg hends)⟩
    | gt => exact ⟨'>', [], rfl, by decide, congrArg some (if_neg hends)⟩
    | eq => exact ⟨'=', [], rfl, by decide, rfl⟩
    | ne => exact ⟨'!', ['='], rfl, by decide, rfl⟩
    | le => exact ⟨'<', ['='], rfl, by decide, rfl⟩
    | ge => exact ⟨'>', ['='], rfl, by decide, rfl⟩
  | not => exact ⟨'!', [], rfl, by decide, congrArg some (if_neg hends)⟩
  | dot => exact ⟨'.', [], rfl, by decide, rfl⟩
  | leftParen => exact ⟨'(', [], rfl, by decide, rfl⟩
  | rightParen => exact ⟨')', [], rfl, by decide, rfl⟩
  | and => exact ⟨'&', [], rfl, by decide, rfl⟩
  | or => exact ⟨'|', [], rfl, by decide, rfl⟩
  | param => exact ⟨'?', [], rfl, by decide, rfl⟩
  | stop => exact h.elim

/-- An operator is read with the equals sign behind it, if there is one. -/
theorem ends_of_extensible (short long : Lexeme) {more : Nat} (hshort : short.spelling.toList = [c])
    (hlong : long.spelling.toList = [c, '=']) (hlongEnds : ∀ behind, long.EndsBefore behind)
    (hshortEnds : ∀ behind : List Char, behind.head? ≠ some '=' → short.EndsBefore behind)
    (h : extensible rest short long = (l, more)) :
    ∃ tail behind, rest = tail ++ behind ∧ tail.length = more ∧ l.spelling.toList = c :: tail ∧
      l.EndsBefore behind := by
  unfold extensible at h
  split at h
  · next hhead =>
    obtain ⟨rfl, rfl⟩ := Prod.mk.inj h
    obtain ⟨behind, rfl⟩ := List.head?_eq_some_iff.1 hhead
    exact ⟨['='], behind, rfl, rfl, hlong, hlongEnds behind⟩
  · next hhead =>
    obtain ⟨rfl, rfl⟩ := Prod.mk.inj h
    exact ⟨[], rest, rfl, rfl, hshort, hshortEnds rest hhead⟩

/-- What is read is a word, and it goes no further. -/
theorem ends_of_lexeme? {more : Nat} (h : lexeme? c rest = some (l, more)) :
    ∃ tail behind, rest = tail ++ behind ∧ tail.length = more ∧ l.spelling.toList = c :: tail ∧
      l.EndsBefore behind := by
  unfold lexeme? at h
  split at h
  case h_8 =>
    exact ends_of_extensible .not (.op .ne) rfl rfl (fun _ => trivial) (fun _ h => h)
      (Option.some.inj h)
  case h_9 =>
    exact ends_of_extensible (.op .lt) (.op .le) rfl rfl (fun _ => trivial) (fun _ h => h)
      (Option.some.inj h)
  case h_10 =>
    exact ends_of_extensible (.op .gt) (.op .ge) rfl rfl (fun _ => trivial) (fun _ h => h)
      (Option.some.inj h)
  case h_11 =>
    split at h
    · obtain ⟨rfl, rfl⟩ := Prod.mk.inj (Option.some.inj h)
      refine ⟨rest.takeWhile continuesName, rest.dropWhile continuesName,
        List.takeWhile_append_dropWhile.symm, rfl, String.toList_ofList, ?_⟩
      intro d hd
      have hstop := List.head?_dropWhile_not continuesName rest
      rw [Option.mem_def.1 hd] at hstop
      exact hstop
    · cases h
  all_goals
    obtain ⟨rfl, rfl⟩ := Prod.mk.inj (Option.some.inj h)
    exact ⟨[], rest, rfl, rfl, rfl, trivial⟩

/-- No character of a word is a blank. -/
theorem Scanned.isBlank_eq_false (h : l.Scanned) : ∀ d ∈ l.spelling.toList, isBlank d = false := by
  have hall : (l.spelling.toList.all fun d => !isBlank d) = true := by
    cases l with
    | name s =>
      rw [List.all_eq_true]
      intro d hd
      have hcontinues : continuesName d = true := h.continuesName_of_mem d hd
      rw [Bool.not_eq_true']
      by_contra hblank
      rw [continuesName_of_isBlank (Bool.not_eq_false _ ▸ hblank)] at hcontinues
      exact Bool.false_ne_true hcontinues
    | op o => cases o <;> decide
    | stop => exact h.elim
    | _ => decide
  simpa using hall

theorem Scanned.spelling_ne_nil (h : l.Scanned) : l.spelling.toList ≠ [] := by
  obtain ⟨c, tail, hchars, -⟩ := h.lexeme?_spelling
  simp [hchars]

/-- The scan knows a lone name by its first character and by how many follow. -/
theorem Scanned.isLoneName_iff (h : l.Scanned) (hchars : l.spelling.toList = c :: tail) :
    isLoneName c tail.length = true ↔ l.IsLone := by
  constructor
  · intro hlone
    simp only [isLoneName, Bool.and_eq_true, beq_iff_eq, decide_eq_true_eq,
      List.length_eq_zero_iff] at hlone
    obtain ⟨⟨hbegins, rfl⟩, hsize⟩ := hlone
    -- a name can begin with the character, so the word it begins is one
    obtain ⟨d, more, hchars', hl⟩ := h.lexeme?_spelling
    rw [hchars] at hchars'
    obtain ⟨rfl, rfl⟩ := List.cons.inj hchars'
    rw [lexeme?_of_beginsName hbegins] at hl
    obtain ⟨rfl, -⟩ := Prod.mk.inj (Option.some.inj hl)
    exact ⟨_, c, rfl, hchars, hsize⟩
  · rintro ⟨s, d, rfl, hs, hsize⟩
    obtain ⟨b, more, rfl, hbegins, -⟩ := h
    rw [spelling, hs] at hchars
    obtain ⟨rfl, rfl⟩ := List.cons.inj hchars
    rw [String.toList_ofList] at hs
    obtain ⟨rfl, rfl⟩ := List.cons.inj hs
    simp [isLoneName, hbegins, hsize]

/-- Where a word stands that goes no further, no longer word stands. -/
theorem Scanned.longest (h : l.Scanned) (h' : l'.Scanned) (hends : l.EndsBefore behind)
    (hstands : l'.spelling.toList <+: l.spelling.toList ++ behind) :
    l'.spelling.toList.length ≤ l.spelling.toList.length := by
  obtain ⟨behind', hbehind⟩ := hstands
  obtain ⟨c, tail, hchars, -, hl⟩ := h.lexeme?_append hends
  have hone : 1 ≤ l.spelling.toList.length := by simp [hchars]
  by_cases hends' : l'.EndsBefore behind'
  · -- both words are what is read here
    obtain ⟨c', tail', hchars', -, hl'⟩ := h'.lexeme?_append hends'
    rw [hchars, hchars', List.cons_append, List.cons_append] at hbehind
    obtain ⟨rfl, htail⟩ := List.cons.inj hbehind
    rw [htail, hl] at hl'
    obtain ⟨rfl, -⟩ := Prod.mk.inj (Option.some.inj hl')
    exact le_rfl
  · cases l' with
    | name s' =>
      -- the name goes on, and what is read takes in all that continues it
      obtain ⟨c', tail', rfl, hbegins, htail'⟩ := h'
      rw [spelling, String.toList_ofList, hchars, List.cons_append, List.cons_append] at hbehind
      obtain ⟨rfl, htail⟩ := List.cons.inj hbehind
      rw [← htail, lexeme?_of_beginsName hbegins, List.takeWhile_append_of_pos htail'] at hl
      have hlength := (Prod.mk.inj (Option.some.inj hl)).2
      rw [List.length_append] at hlength
      rw [hchars, spelling, String.toList_ofList, List.length_cons, List.length_cons]
      omega
    | not => exact hone
    | op o => cases o <;> first | exact hone | exact absurd trivial hends'
    | _ => exact absurd trivial hends'

end Lexeme

/-! ## Steps of the scan -/

namespace Grammar

variable {text : String} {pos : Nat} {read : List Token} {l : Lexeme} {c : Char}
  {rest : List Char}

/-- Characters that belong to a word already read are passed over, and their bytes counted. -/
theorem scanFrom_skip (front : List Char) :
    scanFrom text front.length pos read (front ++ rest) =
      scanFrom text 0 (pos + byteLength front) read rest := by
  induction front generalizing pos with
  | nil => rfl
  | cons c front ih =>
    rw [byteLength_cons, ← Nat.add_assoc, ← ih]
    rfl

/-- A blank is passed over. -/
theorem scanFrom_blank (hc : isBlank c = true) :
    scanFrom text 0 pos read (c :: rest) = scanFrom text 0 (pos + c.utf8Size) read rest := by
  rw [scanFrom, if_pos hc]

/-- A word is read with the bytes it stands at. -/
theorem scanFrom_word (h : l.Scanned) (hends : l.EndsBefore rest) (hlone : ¬ l.IsLone) :
    scanFrom text 0 pos read (l.spelling.toList ++ rest) =
      scanFrom text 0 (pos + byteLength l.spelling.toList)
        (⟨l, ⟨pos, pos + byteLength l.spelling.toList⟩⟩ :: read) rest := by
  obtain ⟨c, tail, hchars, hblank, hl⟩ := h.lexeme?_append hends
  have hmore : isLoneName c tail.length = false := by
    rw [← Bool.not_eq_true, h.isLoneName_iff hchars]
    exact hlone
  rw [hchars, List.cons_append, scanFrom, hblank, hl]
  simp only [Bool.false_eq_true, if_false, hmore, List.take_left]
  rw [scanFrom_skip, byteLength_cons, Nat.add_assoc]

/-- A lone letter of several bytes makes the scan give up. -/
theorem scanFrom_lone (h : l.Scanned) (hends : l.EndsBefore rest) (hlone : l.IsLone) :
    scanFrom text 0 pos read (l.spelling.toList ++ rest) = .error .loneCharacter := by
  obtain ⟨c, tail, hchars, hblank, hl⟩ := h.lexeme?_append hends
  have hmore : isLoneName c tail.length = true := (h.isLoneName_iff hchars).2 hlone
  rw [hchars, List.cons_append, scanFrom, hblank, hl]
  simp only [Bool.false_eq_true, if_false, hmore, if_true]

/-- A character that begins no word is refused with the bytes it stands at. -/
theorem scanFrom_unexpected (hblank : isBlank c = false) (hc : beginsWord c = false) :
    scanFrom text 0 pos read (c :: rest) =
      .error (.malformed (.unexpectedCharacter c) ⟨pos, pos + c.utf8Size⟩ text) := by
  rw [scanFrom, hblank, lexeme?_eq_none_iff.2 hc]
  rfl

/-- A name for the scan is formed as names are, and is no lone one. -/
theorem isName_iff {s : String} :
    IsName s ↔ (Lexeme.name s).Scanned ∧ ¬ (Lexeme.name s).IsLone := by
  constructor
  · intro h
    obtain ⟨c, tail, hchars, -, -, hmore⟩ := h.exists_chars
    refine ⟨h.scanned, ?_⟩
    rw [← h.scanned.isLoneName_iff hchars, hmore]
    exact Bool.false_ne_true
  · rintro ⟨hscanned, hlone⟩
    have hstep : scanFrom s 0 0 [] (s.toList ++ []) = _ :=
      scanFrom_word hscanned (fun _ hd => nomatch hd) hlone
    rw [List.append_nil] at hstep
    rw [IsName, scan, hstep]
    rfl

end Grammar

/-! ## Tilings -/

/-- The characters in front are made up of these words, in order, each as long as it can be with
`behind` to follow, and of blanks. -/
structure Tiled (before behind : List Char) (tokens : List Token) : Prop where
  /-- The bytes of a token spell its word, and what stands behind them does not continue it. -/
  spelled : ∀ t ∈ tokens, ∃ front back,
    before = front ++ (t.lexeme.spelling.toList ++ back) ∧
      t.span = ⟨byteLength front, byteLength front + byteLength t.lexeme.spelling.toList⟩ ∧
      t.lexeme.Scanned ∧ t.lexeme.EndsBefore (back ++ behind)
  /-- Tokens do not overlap. -/
  ordered : tokens.Pairwise fun t t' => t.span.stop ≤ t'.span.start
  /-- What is in no token is blank. -/
  blanks : ∀ front c back, before = front ++ c :: back → isBlank c = true ∨
    ∃ t ∈ tokens, t.span.start ≤ byteLength front ∧ byteLength front < t.span.stop

namespace Tiled

variable {text : String} {before behind : List Char} {tokens : List Token} {t : Token}
  {l : Lexeme} {c : Char}

theorem scanned (h : Tiled before behind tokens) (ht : t ∈ tokens) : t.lexeme.Scanned := by
  obtain ⟨_, _, _, _, hscanned, _⟩ := h.spelled t ht
  exact hscanned

/-- No token is empty. -/
theorem start_lt_stop (h : Tiled before behind tokens) (ht : t ∈ tokens) :
    t.span.start < t.span.stop := by
  obtain ⟨front, back, -, hspan, hscanned, -⟩ := h.spelled t ht
  have hpos := byteLength_pos hscanned.spelling_ne_nil
  rw [hspan]
  show byteLength front < byteLength front + _
  omega

theorem stop_le (h : Tiled before behind tokens) (ht : t ∈ tokens) :
    t.span.stop ≤ byteLength before := by
  obtain ⟨front, back, hbefore, hspan, -, -⟩ := h.spelled t ht
  rw [hspan, hbefore, byteLength_append, byteLength_append]
  show byteLength front + _ ≤ _
  omega

theorem nil : Tiled [] behind [] where
  spelled t ht := nomatch ht
  ordered := .nil
  blanks front c back h := by simp at h

/-- One blank more. -/
theorem blank (h : Tiled before (c :: behind) tokens) (hc : isBlank c = true) :
    Tiled (before ++ [c]) behind tokens where
  spelled t ht := by
    obtain ⟨front, back, hbefore, hspan, hscanned, hends⟩ := h.spelled t ht
    exact ⟨front, back ++ [c], by simp [hbefore], hspan, hscanned, by simpa using hends⟩
  ordered := h.ordered
  blanks front d back heq := by
    by_cases hback : back = []
    · rw [hback] at heq
      have hd : c = d := by simpa using (List.append_inj' heq rfl).2
      exact .inl (hd ▸ hc)
    · rw [List.append_cons front] at heq
      obtain ⟨back', -, hbefore⟩ := exists_eq_snoc heq hback
      exact h.blanks front d back' (by simp [hbefore])

/-- One blank less. -/
theorem of_blank (h : Tiled (before ++ [c]) behind tokens) (hc : isBlank c = true) :
    Tiled before (c :: behind) tokens where
  spelled t ht := by
    obtain ⟨front, back, hbefore, hspan, hscanned, hends⟩ := h.spelled t ht
    have hback : back ≠ [] := by
      -- the word would end with the blank
      rintro rfl
      rw [List.append_nil] at hbefore
      obtain ⟨init, hspelling, -⟩ := exists_eq_snoc hbefore hscanned.spelling_ne_nil
      have hword := hscanned.isBlank_eq_false c (by simp [hspelling])
      rw [hc] at hword
      exact nomatch hword
    rw [← List.append_assoc] at hbefore
    obtain ⟨back', rfl, hfront⟩ := exists_eq_snoc hbefore hback
    exact ⟨front, back', by rw [hfront, List.append_assoc], hspan, hscanned, by simpa using hends⟩
  ordered := h.ordered
  blanks front d back heq := h.blanks front d (back ++ [c]) (by simp [heq])

/-- One word more. -/
theorem word (h : Tiled before (l.spelling.toList ++ behind) tokens) (hl : l.Scanned)
    (hends : l.EndsBefore behind) :
    Tiled (before ++ l.spelling.toList) behind (tokens ++
      [⟨l, ⟨byteLength before, byteLength before + byteLength l.spelling.toList⟩⟩]) where
  spelled t ht := by
    rcases List.mem_append.1 ht with ht | ht
    · obtain ⟨front, back, hbefore, hspan, hscanned, hends'⟩ := h.spelled t ht
      exact ⟨front, back ++ l.spelling.toList, by simp [hbefore], hspan, hscanned,
        by simpa using hends'⟩
    · obtain rfl := List.mem_singleton.1 ht
      exact ⟨before, [], by simp, rfl, hl, hends⟩
  ordered := by
    refine List.pairwise_append.2 ⟨h.ordered, List.pairwise_singleton _ _, fun t ht t' ht' => ?_⟩
    obtain rfl := List.mem_singleton.1 ht'
    exact h.stop_le ht
  blanks front d back heq := by
    by_cases hlt : byteLength front < byteLength before
    · -- the character stands in front of the new word
      have hle : byteLength front ≤ byteLength before := by omega
      obtain ⟨mid, hbefore, hmid⟩ := exists_between heq.symm hle
      cases mid with
      | nil => simp [hbefore] at hlt
      | cons e mid =>
        obtain ⟨rfl, -⟩ := List.cons.inj hmid
        rcases h.blanks front d mid hbefore with hblank | ⟨t, ht, hin⟩
        · exact .inl hblank
        · exact .inr ⟨t, List.mem_append_left _ ht, hin⟩
    · refine .inr ⟨_, List.mem_append_right _ (List.mem_singleton_self _), by simpa using hlt, ?_⟩
      have hsize : 0 < d.utf8Size := d.utf8Size_pos
      have hbytes := congrArg byteLength heq
      simp only [byteLength_append, byteLength_cons] at hbytes
      show byteLength front < byteLength before + byteLength l.spelling.toList
      omega

/-- One word less. -/
theorem of_word (h : Tiled (before ++ l.spelling.toList) behind (tokens ++
      [⟨l, ⟨byteLength before, byteLength before + byteLength l.spelling.toList⟩⟩])) :
    Tiled before (l.spelling.toList ++ behind) tokens where
  spelled t ht := by
    obtain ⟨front, back, hbefore, hspan, hscanned, hends⟩ := h.spelled t (by simp [ht])
    -- the word ends before the last one begins
    have hstop : t.span.stop ≤ byteLength before :=
      (List.pairwise_append.1 h.ordered).2.2 t ht _ (List.mem_singleton_self _)
    rw [← List.append_assoc] at hbefore
    have hle : byteLength (front ++ t.lexeme.spelling.toList) ≤ byteLength before := by
      rw [byteLength_append]
      rwa [hspan] at hstop
    obtain ⟨mid, hfront, hback⟩ := exists_between hbefore.symm hle
    exact ⟨front, mid, by rw [hfront, List.append_assoc], hspan, hscanned,
      by rwa [hback, List.append_assoc] at hends⟩
  ordered := (List.pairwise_append.1 h.ordered).1
  blanks front c back heq := by
    rcases h.blanks front c (back ++ l.spelling.toList) (by simp [heq]) with hblank | ⟨t, ht, hin⟩
    · exact .inl hblank
    · rcases List.mem_append.1 ht with ht | ht
      · exact .inr ⟨t, ht, hin⟩
      · -- the last word begins behind the character
        obtain rfl := List.mem_singleton.1 ht
        have hsize : 0 < c.utf8Size := c.utf8Size_pos
        have hstart : byteLength before ≤ byteLength front := hin.1
        rw [heq, byteLength_append, byteLength_cons] at hstart
        omega

/-- The last word, if no blank follows it. -/
theorem exists_last (h : Tiled (before ++ [c]) behind tokens) (hc : isBlank c = false) :
    ∃ front l rest, before ++ [c] = front ++ l.spelling.toList ∧ l.Scanned ∧ l.EndsBefore behind ∧
      tokens =
        rest ++ [⟨l, ⟨byteLength front, byteLength front + byteLength l.spelling.toList⟩⟩] := by
  obtain ⟨t, ht, -, hstop⟩ := (h.blanks before c [] rfl).resolve_left (by simp [hc])
  obtain ⟨front, back, hbefore, hspan, hscanned, hends⟩ := h.spelled t ht
  -- the word over the last character ends with it
  have hback : back = [] := by
    by_contra hne
    rw [← List.append_assoc] at hbefore
    obtain ⟨back', -, hfront⟩ := exists_eq_snoc hbefore hne
    rw [hspan, hfront, byteLength_append, byteLength_append] at hstop
    have hstop' : byteLength front + byteLength t.lexeme.spelling.toList + byteLength back' <
      byteLength front + byteLength t.lexeme.spelling.toList := hstop
    omega
  subst hback
  rw [List.append_nil] at hbefore
  rw [List.nil_append] at hends
  obtain ⟨rest, more, htokens⟩ := List.append_of_mem ht
  -- no word follows, for there is no room for one
  have hmore : more = [] := by
    refine List.eq_nil_iff_forall_not_mem.2 fun t' ht' => ?_
    have hmem : t' ∈ tokens := by simp [htokens, ht']
    have hordered := h.ordered
    rw [htokens, List.pairwise_append, List.pairwise_cons] at hordered
    have hstart : t.span.stop ≤ t'.span.start := hordered.2.1.1 t' ht'
    have hlt := h.start_lt_stop hmem
    have hle := h.stop_le hmem
    rw [hbefore, byteLength_append] at hle
    rw [hspan] at hstart
    have hstart' : byteLength front + byteLength t.lexeme.spelling.toList ≤ t'.span.start := hstart
    omega
  exact ⟨front, t.lexeme, rest, hbefore, hscanned, hends, by rw [htokens, hmore, ← hspan]⟩

/-- The scan comes to the end of what is tiled with the words of the tiling. -/
theorem scanFrom_eq (h : Tiled before behind tokens) (hlone : ∀ t ∈ tokens, ¬ t.lexeme.IsLone) :
    scanFrom text 0 0 [] (before ++ behind) =
      scanFrom text 0 (byteLength before) tokens.reverse behind := by
  induction hlength : before.length using Nat.strong_induction_on generalizing before behind tokens
  case h n ih =>
  by_cases hbefore : before = []
  · subst hbefore
    have htokens : tokens = [] := by
      refine List.eq_nil_iff_forall_not_mem.2 fun t ht => ?_
      have hlt := h.start_lt_stop ht
      have hle := h.stop_le ht
      rw [byteLength_nil] at hle
      omega
    rw [htokens]
    rfl
  · obtain ⟨init, c, rfl⟩ := (List.eq_nil_or_concat before).resolve_left hbefore
    rw [List.concat_eq_append] at h hlength ⊢
    cases hc : isBlank c with
    | true =>
      have hshorter : init.length < n := by
        rw [← hlength]
        simp
      rw [List.append_assoc, List.singleton_append,
        ih init.length hshorter (h.of_blank hc) hlone rfl, scanFrom_blank hc]
      simp
    | false =>
      obtain ⟨front, l, rest, hinit, hscanned, hends, rfl⟩ := h.exists_last hc
      rw [hinit] at h hlength ⊢
      have hshorter : front.length < n := by
        have hpos := List.length_pos_iff.2 hscanned.spelling_ne_nil
        rw [← hlength, List.length_append]
        omega
      have hlast : ¬ l.IsLone := hlone _ (List.mem_append_right _ (List.mem_singleton_self _))
      rw [List.append_assoc, ih front.length hshorter h.of_word
        (fun t ht => hlone t (List.mem_append_left _ ht)) rfl, scanFrom_word hscanned hends hlast]
      simp

/-- Where a word of the tiling stands, no longer word stands. -/
theorem longest (h : Tiled before behind tokens) (ht : t ∈ tokens) {front rest : List Char}
    (hchars : before ++ behind = front ++ rest) (hstart : byteLength front = t.span.start)
    (hl : l.Scanned) (hstands : l.spelling.toList <+: rest) :
    l.spelling.toList.length ≤ t.lexeme.spelling.toList.length := by
  obtain ⟨front', back, hbefore, hspan, hscanned, hends⟩ := h.spelled t ht
  rw [hspan] at hstart
  rw [hbefore, List.append_assoc, List.append_assoc] at hchars
  obtain ⟨mid, hfront, hmid⟩ := exists_between hchars hstart.ge
  -- both begin at the same byte, so nothing lies between them
  have hnil : mid = [] := by
    by_contra hne
    have hpos := byteLength_pos hne
    rw [hfront, byteLength_append] at hstart
    have hstart' : byteLength front' + byteLength mid = byteLength front' := hstart
    omega
  rw [hnil, List.nil_append] at hmid
  exact hscanned.longest hl hends (hmid ▸ hstands)

end Tiled

/-! ## Where the words end -/

/-- What the scan of the text fails with at a character that it cannot go past: one that is no
blank and begins no word, or one outside ASCII that is a name by itself. -/
inductive StopsAt (text : String) (before : List Char) (c : Char) (behind : List Char) :
    FilterError → Prop
  | character (hblank : isBlank c = false) (hword : beginsWord c = false) :
    StopsAt text before c behind (.malformed (.unexpectedCharacter c)
      ⟨byteLength before, byteLength before + c.utf8Size⟩ text)
  | lone (hbegins : beginsName c = true) (hsize : 1 < c.utf8Size)
      (hends : ∀ d ∈ behind.head?, continuesName d = false) :
    StopsAt text before c behind .loneCharacter

variable {text : String} {before behind : List Char} {tokens : List Token} {c : Char}

/-- A lone name is one character, and the scan stops at it. -/
theorem Lexeme.IsLone.exists_char {l : Lexeme} (h : l.IsLone) (hl : l.Scanned)
    (hends : l.EndsBefore behind) :
    ∃ c, l.spelling.toList = [c] ∧ StopsAt text before c behind .loneCharacter := by
  obtain ⟨s, c, rfl, hs, hsize⟩ := h
  obtain ⟨d, tail, rfl, hbegins, -⟩ := hl
  have hchars : d :: tail = [c] := by rwa [String.toList_ofList] at hs
  obtain ⟨rfl, -⟩ := List.cons.inj hchars
  exact ⟨d, hs, .lone hbegins hsize hends⟩

/-- Where the scan stops it fails for this reason. -/
theorem StopsAt.scanFrom_eq {e : FilterError} (h : StopsAt text before c behind e)
    {read : List Token} :
    scanFrom text 0 (byteLength before) read (c :: behind) = .error e := by
  cases h with
  | character hblank hword => exact scanFrom_unexpected hblank hword
  | lone hbegins hsize hends =>
    have hscanned : (Lexeme.name (String.ofList [c])).Scanned :=
      ⟨c, [], rfl, hbegins, fun _ hd => nomatch hd⟩
    have hlone : (Lexeme.name (String.ofList [c])).IsLone :=
      ⟨_, c, rfl, String.toList_ofList, hsize⟩
    have hstep := @scanFrom_lone text (byteLength before) read _ behind hscanned hends hlone
    rwa [Lexeme.spelling, String.toList_ofList] at hstep

/-- A tiling goes on to the end of the text or to a character that the scan cannot go past. -/
theorem Tiled.exists_further (text : String) (h : Tiled before behind tokens)
    (hlone : ∀ t ∈ tokens, ¬ t.lexeme.IsLone) :
    (∃ tokens', Tiled (before ++ behind) [] tokens' ∧ ∀ t ∈ tokens', ¬ t.lexeme.IsLone) ∨
      ∃ before' c behind' tokens' e, before ++ behind = before' ++ c :: behind' ∧
        Tiled before' (c :: behind') tokens' ∧ (∀ t ∈ tokens', ¬ t.lexeme.IsLone) ∧
          StopsAt text before' c behind' e := by
  induction hlength : behind.length using Nat.strong_induction_on
    generalizing before behind tokens
  case h n ih =>
  cases behind with
  | nil => exact .inl ⟨tokens, by rwa [List.append_nil], hlone⟩
  | cons c rest =>
    cases hblank : isBlank c with
    | true =>
      have hshorter : rest.length < n := by
        rw [← hlength]
        simp
      have hfurther := ih rest.length hshorter (h.blank hblank) hlone rfl
      rwa [List.append_assoc, List.singleton_append] at hfurther
    | false =>
      cases hl : lexeme? c rest with
      | none =>
        have hword := lexeme?_eq_none_iff.1 hl
        exact .inr ⟨before, c, rest, tokens, _, rfl, h, hlone, .character hblank hword⟩
      | some found =>
        obtain ⟨l, more⟩ := found
        obtain ⟨tail, behind', rfl, -, hchars, hends⟩ := Lexeme.ends_of_lexeme? hl
        have hscanned := lexeme?_scanned hl
        rw [← List.cons_append, ← hchars] at h ⊢
        by_cases hword : l.IsLone
        · obtain ⟨d, hd, hstops⟩ := hword.exists_char hscanned hends
          rw [hd] at h ⊢
          exact .inr ⟨before, d, behind', tokens, _, rfl, h, hlone, hstops⟩
        · have hshorter : behind'.length < n := by
            rw [← hlength, List.length_cons, List.length_append]
            omega
          have hlone' : ∀ t ∈ tokens ++ [⟨l, ⟨byteLength before,
              byteLength before + byteLength l.spelling.toList⟩⟩], ¬ t.lexeme.IsLone := by
            intro t ht
            rcases List.mem_append.1 ht with ht | ht
            · exact hlone t ht
            · obtain rfl := List.mem_singleton.1 ht
              exact hword
          have hfurther :=
            ih behind'.length hshorter (h.word hscanned hends) hlone' rfl
          rwa [List.append_assoc] at hfurther

/-! ## The scan of a text -/

/-- The words of a text are found, and nothing else. -/
structure TilesExactly (text : String) : Prop where
  /-- The scan gives the words that tile the text, if none of them is a lone name. -/
  succeeds_iff : ∀ tokens, scan text = .ok tokens ↔
    Tiled text.toList [] tokens ∧ ∀ t ∈ tokens, ¬ t.lexeme.IsLone
  /-- It fails at the first character that it cannot go past, and as this one has it. -/
  fails_iff : ∀ e, scan text = .error e ↔
    ∃ before c behind tokens, text.toList = before ++ c :: behind ∧
      Tiled before (c :: behind) tokens ∧ (∀ t ∈ tokens, ¬ t.lexeme.IsLone) ∧
        StopsAt text before c behind e
  /-- Where a word was found, no longer word stands. -/
  longest : ∀ tokens, scan text = .ok tokens → ∀ t ∈ tokens, ∀ front rest,
    text.toList = front ++ rest → byteLength front = t.span.start →
      ∀ l : Lexeme, l.Scanned → l.spelling.toList <+: rest →
        l.spelling.toList.length ≤ t.lexeme.spelling.toList.length
  /-- Behind the last word, and nowhere before, is the end of the text, behind its last byte. -/
  ends : ∀ tokens, scan text = .ok tokens → ∀ n,
    (tokens.length ≤ n ↔ (peekIn text (tokens.drop n)).lexeme = .stop) ∧
      (tokens.length ≤ n → (peekIn text (tokens.drop n)).span = .point (byteLength text.toList))

/-- A scan comes to one end, and this end is described by what the text is tiled with. -/
theorem scan_of_tiled (h : Tiled text.toList [] tokens) (hlone : ∀ t ∈ tokens, ¬ t.lexeme.IsLone) :
    scan text = .ok tokens := by
  have hall : scanFrom text 0 0 [] (text.toList ++ []) = _ := h.scanFrom_eq hlone
  rw [List.append_nil] at hall
  rw [scan, hall, scanFrom, List.reverse_reverse]

/-- A text that is tiled up to a place where the scan stops is refused for it. -/
theorem scan_of_stopsAt {e : FilterError} (htext : text.toList = before ++ c :: behind)
    (h : Tiled before (c :: behind) tokens) (hlone : ∀ t ∈ tokens, ¬ t.lexeme.IsLone)
    (hstops : StopsAt text before c behind e) : scan text = .error e := by
  rw [scan, htext, h.scanFrom_eq hlone, hstops.scanFrom_eq]

/-- The text is tiled to its end, or to a character that the scan cannot go past. -/
theorem exists_tiled (text : String) :
    (∃ tokens, Tiled text.toList [] tokens ∧ ∀ t ∈ tokens, ¬ t.lexeme.IsLone) ∨
      ∃ before c behind tokens e, text.toList = before ++ c :: behind ∧
        Tiled before (c :: behind) tokens ∧ (∀ t ∈ tokens, ¬ t.lexeme.IsLone) ∧
          StopsAt text before c behind e := by
  have hnil : Tiled [] text.toList [] := .nil
  have hfurther := hnil.exists_further text fun t ht => nomatch ht
  rwa [List.nil_append] at hfurther

/-- A text that is scanned is tiled by its tokens, none of which is a lone name. -/
theorem tiled_of_scan (hscan : scan text = .ok tokens) :
    Tiled text.toList [] tokens ∧ ∀ t ∈ tokens, ¬ t.lexeme.IsLone := by
  rcases exists_tiled text with ⟨tokens', h, hlone⟩ | ⟨before, c, behind, tokens', e, htext, h,
    hlone, hstops⟩
  · rw [scan_of_tiled h hlone] at hscan
    obtain rfl := Except.ok.inj hscan
    exact ⟨h, hlone⟩
  · rw [scan_of_stopsAt htext h hlone hstops] at hscan
    exact nomatch hscan

/-- A text that is refused is tiled up to the place it is refused for. -/
theorem stopsAt_of_scan {e : FilterError} (hscan : scan text = .error e) :
    ∃ before c behind tokens, text.toList = before ++ c :: behind ∧
      Tiled before (c :: behind) tokens ∧ (∀ t ∈ tokens, ¬ t.lexeme.IsLone) ∧
        StopsAt text before c behind e := by
  rcases exists_tiled text with ⟨tokens, h, hlone⟩ | ⟨before, c, behind, tokens, e', htext, h,
    hlone, hstops⟩
  · rw [scan_of_tiled h hlone] at hscan
    exact nomatch hscan
  · rw [scan_of_stopsAt htext h hlone hstops] at hscan
    obtain rfl := Except.error.inj hscan
    exact ⟨before, c, behind, tokens, htext, h, hlone, hstops⟩

/-- Every text is either tiled by its tokens, from end to end and in the only way, or tiled up to
the first character where the scan stops, and the error is about that character. -/
theorem scan_tiles_exactly (text : String) : TilesExactly text := by
  constructor
  case succeeds_iff =>
    exact fun tokens => ⟨tiled_of_scan, fun ⟨h, hlone⟩ => scan_of_tiled h hlone⟩
  case fails_iff =>
    refine fun e => ⟨stopsAt_of_scan, ?_⟩
    rintro ⟨before, c, behind, tokens, htext, h, hlone, hstops⟩
    exact scan_of_stopsAt htext h hlone hstops
  case longest =>
    intro tokens hscan t ht front rest htext hstart l hl hstands
    have h := (tiled_of_scan hscan).1
    exact h.longest ht (by rw [List.append_nil, htext]) hstart hl hstands
  case ends =>
    intro tokens hscan n
    have h := (tiled_of_scan hscan).1
    by_cases hn : tokens.length ≤ n
    · have hpeek : peekIn text (tokens.drop n) = .stopAt text.utf8ByteSize := by
        rw [List.drop_of_length_le hn]
        rfl
      simp [hpeek, hn, Token.stopAt, byteLength_toList]
    · have hlt : n < tokens.length := by omega
      have hpeek : peekIn text (tokens.drop n) = tokens[n] := by
        rw [List.drop_eq_getElem_cons hlt]
        rfl
      have hword := h.scanned (List.getElem_mem hlt)
      have hne : tokens[n].lexeme ≠ .stop := by
        intro hstop
        rw [hstop] at hword
        exact hword
      simp [hpeek, hn, hne]

/-- The same character is read as soon as the name goes on. -/
example : scan "é" = .error .loneCharacter ∧ scan "és" = .ok [⟨.name "és", ⟨0, 3⟩⟩] := by
  decide +kernel

end RowFilter
