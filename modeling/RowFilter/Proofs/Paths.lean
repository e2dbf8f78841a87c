import RowFilter.Proofs.Grammar
import RowFilter.Proofs.Steps

/-!
# Reading and resolving paths

The segments of a chain are read off the front of the tokens exactly as the grammar spells them,
and what they resolve to depends on their names and marks alone: positions and the text are for
errors only.
-/

namespace RowFilter

/-- The segment as a hop by name. -/
def Segment.hop (s : Segment) : HopName :=
  ⟨s.name, s.outer⟩

/-! ## Resolving -/

/-- Giving names their places leaves them as they are. -/
theorem HopName.map_hop_segmentsFrom (offset : Nat) (names : List HopName) :
    (HopName.segmentsFrom offset names).map Segment.hop = names := by
  induction names generalizing offset with
  | nil => rfl
  | cons h rest ih =>
    rw [HopName.segmentsFrom, List.map_cons, ih]
    rfl

/-- Whether two steps succeed, and with what, does not depend on the errors. -/
theorem toOption_bind {ε α β : Type} (x : Except ε α) (k : α → Except ε β) :
    (x >>= k).toOption = x.toOption.bind fun a => (k a).toOption := by
  cases x <;> rfl

namespace Schema

/-- Looking a property up fails or succeeds whatever errors would quote. -/
theorem propertyAt_toOption {e : Entity} {s : Segment} (span : Span) {text : String}
    (text' : String) {flaw? : Property → Option Flaw} :
    (propertyAt e s text flaw?).toOption =
      (propertyAt e { s with span := span } text' flaw?).toOption := by
  unfold propertyAt
  cases e.property? s.name with
  | none => rfl
  | some p =>
    simp only
    cases flaw? p <;> rfl

/-- Resolving depends on the names, and not on where they stand. -/
theorem resolveFrom_toOption {schema : Schema} {use : ChainUse} {text text' : String}
    {e : Entity} {joins : List Hop} {segs segs' : List Segment}
    (h : segs.map Segment.hop = segs'.map Segment.hop) :
    (schema.resolveFrom use text e joins segs).toOption =
      (schema.resolveFrom use text' e joins segs').toOption := by
  induction segs generalizing segs' e joins with
  | nil =>
    obtain rfl : segs' = [] := List.map_eq_nil_iff.1 h.symm
    rfl
  | cons s rest ih =>
    obtain ⟨s', rest', rfl, hs, hrest⟩ := List.map_eq_cons_iff.1 h.symm
    obtain ⟨name, outer, span⟩ := s
    obtain ⟨name', outer', span'⟩ := s'
    obtain ⟨rfl, rfl⟩ : name' = name ∧ outer' = outer := by simpa [Segment.hop] using hs
    cases rest with
    | nil =>
      obtain rfl : rest' = [] := List.map_eq_nil_iff.1 hrest
      simp only [resolveFrom, toOption_bind]
      rw [propertyAt_toOption span' text']
      rfl
    -- two segments at least: the first is a join, and the others resolve alike from any entity
    | cons t rest =>
      obtain ⟨t', rest', rfl, ht, hrest⟩ := List.map_eq_cons_iff.1 hrest
      have ih' : ∀ e joins, (schema.resolveFrom use text e joins (t :: rest)).toOption =
          (schema.resolveFrom use text' e joins (t' :: rest')).toOption :=
        fun e joins => ih (by rw [List.map_cons, List.map_cons, ht, hrest])
      simp only [resolveFrom, toOption_bind, ih']
      rw [propertyAt_toOption span' text']
      rfl

end Schema

namespace Grammar

variable {schema : Schema} {text : String} {e : Entity}

/-- Segments resolve to what the path of their names resolves to. -/
theorem resolve_eq_ok {segs : List Segment} {path : Path} {use : ChainUse} {r : Resolved}
    (h : segs.map Segment.hop = path.names) :
    schema.resolve e segs use text = .ok r ↔ path.resolve? schema e use = some r := by
  have hsame : (schema.resolve e segs use text).toOption = path.resolve? schema e use :=
    Schema.resolveFrom_toOption (h.trans (HopName.map_hop_segmentsFrom 0 path.names).symm)
  rw [← hsame]
  cases schema.resolve e segs use text <;> simp [Except.toOption]

/-! ## Words at the front of tokens -/

/-- The tokens begin with these words, and `rest` is what follows them. -/
def Begins (tokens : List Token) (words : List Lexeme) (rest : List Token) : Prop :=
  ∃ front, tokens = front ++ rest ∧ front.map Token.lexeme = words

/-- The tokens do not begin with this word. -/
def Avoids (l : Lexeme) (tokens : List Token) : Prop :=
  ∀ t ∈ tokens.head?, t.lexeme ≠ l

namespace Begins

theorem nil (tokens : List Token) : Begins tokens [] tokens :=
  ⟨[], rfl, rfl⟩

theorem cons {t : Token} {tokens rest : List Token} {words : List Lexeme}
    (h : Begins tokens words rest) : Begins (t :: tokens) (t.lexeme :: words) rest := by
  obtain ⟨front, rfl, rfl⟩ := h
  exact ⟨t :: front, rfl, rfl⟩

theorem append {tokens mid rest : List Token} {words words' : List Lexeme}
    (h : Begins tokens words mid) (h' : Begins mid words' rest) :
    Begins tokens (words ++ words') rest := by
  obtain ⟨front, rfl, rfl⟩ := h
  obtain ⟨front', rfl, rfl⟩ := h'
  exact ⟨front ++ front', (List.append_assoc _ _ _).symm, List.map_append⟩

theorem eq_of_nil {tokens rest : List Token} (h : Begins tokens [] rest) : tokens = rest := by
  obtain ⟨front, rfl, hfront⟩ := h
  rw [List.map_eq_nil_iff.1 hfront, List.nil_append]

theorem uncons {tokens rest : List Token} {l : Lexeme} {words : List Lexeme}
    (h : Begins tokens (l :: words) rest) :
    ∃ span mid, tokens = ⟨l, span⟩ :: mid ∧ Begins mid words rest := by
  obtain ⟨front, rfl, hfront⟩ := h
  obtain ⟨⟨_, span⟩, front, rfl, rfl, hmore⟩ := List.map_eq_cons_iff.1 hfront
  exact ⟨span, front ++ rest, rfl, front, rfl, hmore⟩

theorem single {tokens rest : List Token} {l : Lexeme} (h : Begins tokens [l] rest) :
    ∃ span, tokens = ⟨l, span⟩ :: rest := by
  obtain ⟨span, mid, rfl, hmid⟩ := h.uncons
  rw [hmid.eq_of_nil]
  exact ⟨span, rfl⟩

theorem pair {tokens rest : List Token} {l l' : Lexeme} (h : Begins tokens [l, l'] rest) :
    ∃ span span', tokens = ⟨l, span⟩ :: ⟨l', span'⟩ :: rest := by
  obtain ⟨span, mid, rfl, hmid⟩ := h.uncons
  obtain ⟨span', rfl⟩ := hmid.single
  exact ⟨span, span', rfl⟩

theorem split {tokens rest : List Token} {words words' : List Lexeme}
    (h : Begins tokens (words ++ words') rest) :
    ∃ mid, Begins tokens words mid ∧ Begins mid words' rest := by
  obtain ⟨front, rfl, hfront⟩ := h
  obtain ⟨front₁, front₂, rfl, h₁, h₂⟩ := List.map_eq_append_iff.1 hfront
  exact ⟨front₂ ++ rest, ⟨front₁, List.append_assoc _ _ _, h₁⟩, front₂, rfl, h₂⟩

/-- Words that leave nothing are all the words of the tokens. -/
theorem all_iff {tokens : List Token} {words : List Lexeme} :
    Begins tokens words [] ↔ tokens.map Token.lexeme = words := by
  constructor
  · rintro ⟨front, rfl, rfl⟩
    rw [List.append_nil]
  · intro h
    exact ⟨tokens, (List.append_nil _).symm, h⟩

theorem avoids {tokens rest : List Token} {l l' : Lexeme} {words : List Lexeme}
    (h : Begins tokens (l :: words) rest) (hne : l ≠ l') : Avoids l' tokens := by
  obtain ⟨span, mid, rfl, -⟩ := h.uncons
  intro t ht
  obtain rfl := Option.some.inj ht
  exact hne

end Begins

/-! ## Reading segments -/

/-- A hop is read from its words. -/
theorem segment_sound {tokens : List Token} {r : Reading Segment tokens}
    (h : segment text tokens = .ok r) : Begins tokens r.value.hop.lexemes r.rest := by
  unfold segment at h
  split at h
  · obtain rfl := Except.ok.inj h
    exact (Begins.nil _).cons
  · obtain rfl := Except.ok.inj h
    exact (Begins.nil _).cons.cons.cons
  · exact nomatch h

/-- The words of a hop are read as the hop. -/
theorem segment_complete {tokens rest : List Token} {hop : HopName}
    (h : Begins tokens hop.lexemes rest) :
    ∃ s hlt, segment text tokens = .ok ⟨s, rest, hlt⟩ ∧ s.hop = hop := by
  obtain ⟨name, outer⟩ := hop
  -- a name alone, or a name in parentheses
  cases outer with
  | false =>
    obtain ⟨span, rfl⟩ := h.single
    exact ⟨⟨name, false, span⟩, _, rfl, rfl⟩
  | true =>
    obtain ⟨paren, mid, rfl, hname⟩ := h.uncons
    obtain ⟨span, close, rfl⟩ := hname.pair
    exact ⟨⟨name, true, span⟩, _, rfl, rfl⟩

/-- The hops behind the first are read from dots and the words of hops; by recursion on the words
that are left. -/
theorem segmentsFrom_sound {input : List Token} {read : List Segment} (tokens : List Token)
    {hlt : tokens.length < input.length} {r : Reading (List Segment) input}
    (h : segmentsFrom text read tokens hlt = .ok r) :
    ∃ more, Begins tokens (Path.tailLexemes more) r.rest ∧
      r.value.map Segment.hop = read.reverse.map Segment.hop ++ more := by
  unfold segmentsFrom at h
  -- along the recursion of the reader, which is on what is left of the tokens
  cases tokens with
  | nil =>
    obtain rfl := Except.ok.inj h
    exact ⟨[], Begins.nil _, (List.append_nil _).symm⟩
  | cons t rest =>
    simp only at h
    split at h
    · next hdot =>
      obtain ⟨s, hs, h⟩ := bind_eq_ok.1 h
      have hshort : s.rest.length < (t :: rest).length :=
        Nat.lt_trans s.shorter (Nat.lt_succ_self _)
      obtain ⟨more, hmore, hvalue⟩ := segmentsFrom_sound s.rest h
      refine ⟨s.value.hop :: more, ?_, ?_⟩
      · have hfirst := (segment_sound hs).cons (t := t)
        rw [hdot] at hfirst
        exact hfirst.append hmore
      · rw [hvalue, List.reverse_cons, List.map_append, List.append_assoc]
        rfl
    · obtain rfl := Except.ok.inj h
      exact ⟨[], Begins.nil _, (List.append_nil _).symm⟩
termination_by tokens.length
decreasing_by
  subst_vars
  exact hshort

/-- Dots and the words of hops are all read, up to what is no dot; by induction on the hops. -/
theorem segmentsFrom_complete {input tokens rest : List Token} {read : List Segment}
    {more : List HopName} {hlt : tokens.length < input.length}
    (h : Begins tokens (Path.tailLexemes more) rest) (hrest : Avoids .dot rest) :
    ∃ segs hlt', segmentsFrom text read tokens hlt = .ok ⟨segs, rest, hlt'⟩ ∧
      segs.map Segment.hop = read.reverse.map Segment.hop ++ more := by
  induction more generalizing tokens read with
  | nil =>
    obtain rfl := h.eq_of_nil
    refine ⟨read.reverse, hlt, ?_, (List.append_nil _).symm⟩
    unfold segmentsFrom
    cases tokens with
    | nil => rfl
    | cons t rest =>
      have hdot : t.lexeme ≠ .dot := hrest t rfl
      simp only [if_neg hdot]
  | cons hop more ih =>
    obtain ⟨dot, mid, rfl, hmid⟩ := h.uncons
    obtain ⟨mid', hhop, hmore⟩ := hmid.split
    obtain ⟨s, hs, hread, rfl⟩ := @segment_complete text _ _ _ hhop
    have hshort : mid'.length < input.length :=
      Nat.lt_trans hs (Nat.lt_trans (Nat.lt_succ_self _) hlt)
    obtain ⟨segs, hlt', hsegs, hvalue⟩ := @ih mid' (s :: read) hshort hmore
    refine ⟨segs, hlt', ?_, ?_⟩
    · unfold segmentsFrom
      simp only [if_true]
      rw [hread]
      exact hsegs
    · rw [hvalue, List.reverse_cons, List.map_append, List.append_assoc]
      rfl

/-- The segments read are those of a path, and the path is what was taken off. -/
theorem segments_sound {tokens : List Token} {r : Reading (List Segment) tokens}
    (h : segments text tokens = .ok r) :
    ∃ path : Path, Begins tokens path.lexemes r.rest ∧
      r.value.map Segment.hop = path.names := by
  obtain ⟨s, hs, h⟩ := bind_eq_ok.1 h
  obtain ⟨more, hmore, hvalue⟩ := segmentsFrom_sound s.rest h
  exact ⟨⟨s.value.hop, more⟩, (segment_sound hs).append hmore, hvalue⟩

/-- The words of a path are read as its hops, if no dot follows. -/
theorem segments_complete {tokens rest : List Token} {path : Path}
    (h : Begins tokens path.lexemes rest) (hrest : Avoids .dot rest) :
    ∃ segs hlt, segments text tokens = .ok ⟨segs, rest, hlt⟩ ∧
      segs.map Segment.hop = path.names := by
  obtain ⟨mid, hfirst, hmore⟩ := h.split
  obtain ⟨s, hs, hread, hhop⟩ := @segment_complete text _ _ _ hfirst
  obtain ⟨segs, hlt, hsegs, hvalue⟩ :=
    @segmentsFrom_complete text _ _ _ [s] _ hs hmore hrest
  refine ⟨segs, hlt, ?_, ?_⟩
  · unfold segments
    rw [hread]
    exact hsegs
  · rw [hvalue, Path.names, ← hhop]
    rfl

end Grammar

end RowFilter
