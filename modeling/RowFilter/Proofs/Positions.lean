import Mathlib.Data.List.Forall2
import RowFilter.Proofs.ReaderSoundness

/-!
# The same words at other places

A text is read by its words. Where the words stand, and in which text, makes no difference but to
the errors: what is read from two texts with the same words is the same, or both are refused for the
same flaw. And an error points at bytes that some of the words stand at, at the end of the text, or
at what lies between two such places.

Both are one walk through the readers, with two texts that may be one and the same. What counts as
corresponding, of bytes and of errors, is left open (`Correspondence`); all that the readers need is
that bytes which correspond still do so when they are put together.
-/

namespace RowFilter

open RowFilter.Grammar

/-- Which bytes of one text correspond to which of another, and which errors to which. -/
structure Correspondence (text text' : String) where
  span : Span → Span → Prop
  error : FilterError → FilterError → Prop
  zero : span .zero .zero
  stop : span (.point text.utf8ByteSize) (.point text'.utf8ByteSize)
  merge : ∀ {a a' b b' : Span}, span a a' → span b b' → span (a.merge b) (a'.merge b')
  malformed : ∀ {s s' : Span} (flaw : Flaw), span s s' →
    error (.malformed flaw s text) (.malformed flaw s' text')
  /-- An error that is about no text corresponds to itself. -/
  other : ∀ {e : FilterError}, (∀ flaw s quoted, e ≠ .malformed flaw s quoted) → error e e

namespace Correspondence

variable {text text' : String} (c : Correspondence text text') {α β γ δ : Type}

/-- Related results, or corresponding errors. -/
def Alike (R : α → β → Prop) : Except FilterError α → Except FilterError β → Prop
  | .ok a, .ok b => R a b
  | .error e, .error e' => c.error e e'
  | _, _ => False

variable {c}

namespace Alike

variable {R : α → β → Prop} {S : γ → δ → Prop} {x : Except FilterError α}
  {y : Except FilterError β}

/-- Two steps are alike if the first ones are, and the second ones from related results. -/
theorem bind {k : α → Except FilterError γ} {k' : β → Except FilterError δ} (h : c.Alike R x y)
    (hk : ∀ a b, R a b → c.Alike S (k a) (k' b)) : c.Alike S (x >>= k) (y >>= k') := by
  cases x <;> cases y
  · exact h
  · exact h.elim
  · exact h.elim
  · exact hk _ _ h

theorem mono {R' : α → β → Prop} (hR : ∀ a b, R a b → R' a b) (h : c.Alike R x y) :
    c.Alike R' x y := by
  cases x <;> cases y
  · exact h
  · exact h.elim
  · exact h.elim
  · exact hR _ _ h

/-- A computation without a text, done twice. -/
theorem refl {S : α → α → Prop} (hok : ∀ a, x = .ok a → S a a)
    (herror : ∀ e, x = .error e → ∀ flaw s quoted, e ≠ .malformed flaw s quoted) :
    c.Alike S x x := by
  cases x with
  | ok a => exact hok a rfl
  | error e => exact c.other (herror e rfl)

end Alike

variable (c)

/-! ## Tokens -/

/-- The same word at corresponding places. -/
def TokenAlike (t t' : Token) : Prop :=
  t.lexeme = t'.lexeme ∧ c.span t.span t'.span

/-- The same words at corresponding places, one by one. -/
abbrev TokensAlike : List Token → List Token → Prop :=
  List.Forall₂ c.TokenAlike

/-- The same hop at corresponding places. -/
def SegmentAlike (s s' : Segment) : Prop :=
  s.hop = s'.hop ∧ c.span s.span s'.span

/-- Related values, and the same words left. -/
def ReadAlike (R : α → β → Prop) {input input' : List Token} (r : Reading α input)
    (r' : Reading β input') : Prop :=
  R r.value r'.value ∧ c.TokensAlike r.rest r'.rest

/-- From the same words the readers read alike. -/
def ReadersAlike (R : α → β → Prop) (rd : TokenReader (Except FilterError) α)
    (rd' : TokenReader (Except FilterError) β) : Prop :=
  ∀ tokens tokens', c.TokensAlike tokens tokens' →
    c.Alike (c.ReadAlike R) (rd tokens) (rd' tokens')

variable {c}

/-- The next words are the same, and where nothing is left the ends of the texts correspond. -/
theorem peekIn_alike {tokens tokens' : List Token} (h : c.TokensAlike tokens tokens') :
    c.TokenAlike (peekIn text tokens) (peekIn text' tokens') := by
  cases h with
  | nil => exact ⟨rfl, c.stop⟩
  | cons ht _ => exact ht

/-- What stands in front of corresponding tokens is the same word, if any. -/
theorem TokensAlike.uncons {l : Lexeme} {s : Span} {rest tokens' : List Token}
    (h : c.TokensAlike (⟨l, s⟩ :: rest) tokens') :
    ∃ s' rest', tokens' = ⟨l, s'⟩ :: rest' ∧ c.span s s' ∧ c.TokensAlike rest rest' := by
  obtain ⟨⟨l', s'⟩, rest', ⟨hl, hs⟩, hrest, rfl⟩ := List.forall₂_cons_left_iff.1 h
  obtain rfl : l = l' := hl
  exact ⟨s', rest', rfl, hs, hrest⟩

theorem TokensAlike.uncons_right {l : Lexeme} {s' : Span} {tokens rest' : List Token}
    (h : c.TokensAlike tokens (⟨l, s'⟩ :: rest')) :
    ∃ s rest, tokens = ⟨l, s⟩ :: rest ∧ c.TokensAlike rest rest' := by
  obtain ⟨⟨l', s⟩, rest, ⟨hl, -⟩, hrest, rfl⟩ := List.forall₂_cons_right_iff.1 h
  obtain rfl : l' = l := hl
  exact ⟨s, rest, rfl, hrest⟩

/-! ## Chains -/

/-- One hop is read alike, marked or not; where none stands, both are refused at their next
words. -/
theorem segment_alike : c.ReadersAlike c.SegmentAlike (Grammar.segment text)
    (Grammar.segment text') := by
  intro tokens tokens' h
  unfold Grammar.segment
  split
  · obtain ⟨s', rest', rfl, hs, hrest⟩ := TokensAlike.uncons h
    exact ⟨⟨rfl, hs⟩, hrest⟩
  · obtain ⟨_, _, rfl, -, h⟩ := TokensAlike.uncons h
    obtain ⟨s', _, rfl, hs, h⟩ := TokensAlike.uncons h
    obtain ⟨_, rest', rfl, -, hrest⟩ := TokensAlike.uncons h
    exact ⟨⟨rfl, hs⟩, hrest⟩
  · next hname hmarked =>
    -- what is no segment in the one text is none in the other
    split
    · obtain ⟨_, _, rfl, -⟩ := TokensAlike.uncons_right h
      exact (hname _ _ _ rfl).elim
    · obtain ⟨_, _, rfl, h₁⟩ := TokensAlike.uncons_right h
      obtain ⟨_, _, rfl, h₂⟩ := TokensAlike.uncons_right h₁
      obtain ⟨_, _, rfl, -⟩ := TokensAlike.uncons_right h₂
      exact (hmarked _ _ _ _ _ rfl).elim
    · have hpeek := peekIn_alike h
      simp only [← hpeek.1]
      exact c.malformed _ hpeek.2

/-- The hops behind a first one are read alike, by recursion on the words that are left. -/
theorem segmentsFrom_alike {input input' : List Token} {read read' : List Segment}
    (hread : List.Forall₂ c.SegmentAlike read read') (tokens : List Token) {tokens' : List Token}
    (h : c.TokensAlike tokens tokens') (hlt : tokens.length < input.length)
    (hlt' : tokens'.length < input'.length) :
    c.Alike (c.ReadAlike (List.Forall₂ c.SegmentAlike)) (segmentsFrom text read tokens hlt)
      (segmentsFrom text' read' tokens' hlt') := by
  unfold segmentsFrom
  cases h with
  | nil => exact ⟨List.forall₂_reverse_iff.2 hread, .nil⟩
  | @cons t t' rest rest' ht hrest =>
    simp only [← ht.1]
    split
    · refine Alike.bind (segment_alike rest rest' hrest) fun s s' hs => ?_
      have hshort : s.rest.length < (t :: rest).length :=
        Nat.lt_trans s.shorter (Nat.lt_succ_self _)
      exact segmentsFrom_alike (.cons hs.1 hread) s.rest hs.2 _ _
    · exact ⟨List.forall₂_reverse_iff.2 hread, .cons ht hrest⟩
termination_by tokens.length
decreasing_by
  subst_vars
  exact hshort

theorem segments_alike :
    c.ReadersAlike (List.Forall₂ c.SegmentAlike) (segments text) (segments text') := by
  intro tokens tokens' h
  refine Alike.bind (segment_alike tokens tokens' h) fun s s' hs => ?_
  exact segmentsFrom_alike (.cons hs.1 .nil) s.rest hs.2 _ _

/-- Chains stand at corresponding bytes, from the first hop to the last. -/
theorem spanOf_alike {segs segs' : List Segment} (h : List.Forall₂ c.SegmentAlike segs segs') :
    c.span (spanOf segs) (spanOf segs') := by
  have hfold : ∀ {segs segs' : List Segment}, List.Forall₂ c.SegmentAlike segs segs' →
      ∀ {a a' : Span}, c.span a a' → c.span (segs.foldl (fun span s => span.merge s.span) a)
        (segs'.foldl (fun span s => span.merge s.span) a') := by
    intro segs segs' h
    induction h with
    | nil => exact fun ha => ha
    | cons hs _ ih => exact fun ha => ih (c.merge ha hs.2)
  cases h with
  | nil => exact c.zero
  | cons hs hrest => exact hfold hrest hs.2

/-- A name is looked up alike wherever it stands, and refused with its own place. -/
theorem propertyAt_alike {e : Entity} {s : Segment} {span : Span} (hs : c.span s.span span)
    {flaw? : Property → Option Flaw} :
    c.Alike Eq (Schema.propertyAt e s text flaw?)
      (Schema.propertyAt e { s with span := span } text' flaw?) := by
  unfold Schema.propertyAt
  cases e.property? s.name with
  | none => exact c.malformed _ hs
  | some p =>
    simp only
    cases flaw? p with
    | none => rfl
    | some flaw => exact c.malformed flaw hs

theorem follow_alike {schema : Schema} {p : Property} :
    c.Alike Eq (schema.follow p) (schema.follow p) := by
  refine Alike.refl (fun _ _ => rfl) fun e he => ?_
  unfold Schema.follow at he
  split at he
  · cases he
  · split at he
    · cases he
    · obtain rfl := Except.error.inj he
      intro flaw s quoted hne
      cases hne

/-- Names resolve alike at corresponding places, by induction on the names. -/
theorem resolveFrom_alike {schema : Schema} {use : ChainUse} {e : Entity} {joins : List Hop}
    {segs segs' : List Segment} (h : List.Forall₂ c.SegmentAlike segs segs') :
    c.Alike Eq (schema.resolveFrom use text e joins segs)
      (schema.resolveFrom use text' e joins segs') := by
  induction h generalizing e joins with
  | nil => exact c.malformed _ c.zero
  | @cons s s' rest rest' hs hrest ih =>
    obtain ⟨name, outer, span⟩ := s
    obtain ⟨name', outer', span'⟩ := s'
    obtain ⟨hhop, hspan⟩ := hs
    obtain ⟨rfl, rfl⟩ : name = name' ∧ outer = outer' := by simpa [Segment.hop] using hhop
    cases hrest with
    | nil =>
      refine Alike.bind (propertyAt_alike hspan) fun p p' hp => ?_
      subst hp
      exact Alike.bind follow_alike fun target target' htarget => congrArg _ htarget
    -- another segment follows, so this one is a join
    | cons ht hmore =>
      refine Alike.bind (propertyAt_alike hspan) fun p p' hp => ?_
      subst hp
      refine Alike.bind follow_alike fun next next' hnext => ?_
      subst hnext
      exact ih

theorem resolve_alike {schema : Schema} {use : ChainUse} {e : Entity} {segs segs' : List Segment}
    (h : List.Forall₂ c.SegmentAlike segs segs') :
    c.Alike Eq (schema.resolve e segs use text) (schema.resolve e segs' use text') :=
  resolveFrom_alike h

/-! ## Single words -/

/-- The sign behind an operator is read alike. -/
theorem parameter_alike {op : RelOp} :
    c.ReadersAlike Eq (parameter text op) (parameter text' op) := by
  intro tokens tokens' h
  unfold parameter
  split
  · obtain ⟨s', rest', rfl, -, hrest⟩ := TokensAlike.uncons h
    exact ⟨rfl, hrest⟩
  · next hparam =>
    split
    · obtain ⟨_, _, rfl, -⟩ := TokensAlike.uncons_right h
      exact (hparam _ _ rfl).elim
    · have hpeek := peekIn_alike h
      simp only [← hpeek.1]
      exact c.malformed _ hpeek.2

/-- A closing sign is read alike; a missing one is reported from the opening one on. -/
theorem closing_alike {flaw : Flaw} {paren paren' : Span} (hparen : c.span paren paren') :
    c.ReadersAlike Eq (closing text flaw paren) (closing text' flaw paren') := by
  intro tokens tokens' h
  unfold closing
  split
  · obtain ⟨s', rest', rfl, -, hrest⟩ := TokensAlike.uncons h
    exact ⟨rfl, hrest⟩
  · next hclose =>
    split
    · obtain ⟨_, _, rfl, -⟩ := TokensAlike.uncons_right h
      exact (hclose _ _ rfl).elim
    · exact c.malformed _ (c.merge hparen (peekIn_alike h).2)

/-- Words that are left over are refused alike. -/
theorem atEnd_alike {tokens tokens' : List Token} (h : c.TokensAlike tokens tokens') :
    c.Alike Eq (atEnd text tokens) (atEnd text' tokens') := by
  cases h with
  | nil => rfl
  | @cons t t' rest rest' ht hrest =>
    obtain ⟨l, s⟩ := t
    obtain ⟨l', s'⟩ := t'
    obtain ⟨hl, hs⟩ := ht
    obtain rfl : l = l' := hl
    cases l <;> exact c.malformed _ hs

/-- Chains are read alike from the same words. -/
theorem wholeChain_alike {schema : Schema} {use : ChainUse} {e : Entity}
    {tokens tokens' : List Token} (h : c.TokensAlike tokens tokens') :
    c.Alike Eq (wholeChain schema text e use tokens) (wholeChain schema text' e use tokens') := by
  refine Alike.bind (segments_alike tokens tokens' h) fun names names' hnames => ?_
  exact Alike.bind (atEnd_alike hnames.2) fun _ _ _ => resolve_alike hnames.1

/-! ## Junctions -/

/-- One filter, which is neither open nor closed. -/
def SameProper (f f' : Filter) : Prop :=
  f = f' ∧ f.Proper

/-- One filter, which is not closed. -/
def SameUnclosed (f f' : Filter) : Prop :=
  f = f' ∧ f.isClosed = false

variable {ctx : Context}

theorem withinDepth_alike {f : Filter} (hf : f.Proper) :
    c.Alike SameProper (ctx.withinDepth f) (ctx.withinDepth f) := by
  refine Alike.refl (fun g hg => ?_) fun e he flaw s quoted hne => ?_
  · obtain ⟨rfl, -⟩ := Context.withinDepth_eq_ok.1 hg
    exact ⟨rfl, hf⟩
  · unfold Context.withinDepth at he
    split at he
    · cases he
    · obtain rfl := Except.error.inj he
      cases hne

theorem join_alike {kind : Junction} {left left' right right' : Filter}
    (hl : SameProper left left') (hr : SameProper right right') :
    c.Alike SameProper (ctx.builder.join kind left right) (ctx.builder.join kind left' right') := by
  obtain ⟨rfl, hl⟩ := hl
  obtain ⟨rfl, hr⟩ := hr
  rw [Context.join_eq hl hr]
  exact withinDepth_alike ⟨rfl, rfl⟩

/-- Tests over one filter are built alike; as the filter is not closed, nothing is quoted. -/
theorem existence_alike {e : String} {chain : Chain} {negated : Bool} {sub sub' : Filter}
    (h : SameUnclosed sub sub') :
    c.Alike SameProper (ctx.builder.existence e chain negated sub)
      (ctx.builder.existence e chain negated sub') := by
  obtain ⟨rfl, hclosed⟩ := h
  have heq : ctx.builder.existence e chain negated sub = _ := Context.existence_eq hclosed
  rw [heq]
  exact withinDepth_alike ⟨rfl, rfl⟩

variable {kind : Junction} {rd rd' : TokenReader (Except FilterError) Filter}

/-- Operands are read alike onto a left one, by recursion on the words that are left. -/
theorem junctionFrom_alike (hrd : c.ReadersAlike SameProper rd rd') {input input' : List Token}
    {left left' : Filter} (hleft : SameProper left left') (tokens : List Token)
    {tokens' : List Token} (h : c.TokensAlike tokens tokens')
    (hlt : tokens.length < input.length) (hlt' : tokens'.length < input'.length) :
    c.Alike (c.ReadAlike SameProper)
      (junctionFrom ⟨ctx.builder, text⟩ kind rd left tokens hlt)
      (junctionFrom ⟨ctx.builder, text'⟩ kind rd' left' tokens' hlt') := by
  unfold junctionFrom
  cases h with
  | nil => exact ⟨hleft, .nil⟩
  | @cons t t' rest rest' ht hrest =>
    simp only [← ht.1]
    split
    · refine Alike.bind (hrd rest rest' hrest) fun r r' hr => ?_
      refine Alike.bind (join_alike hleft hr.1) fun f f' hf => ?_
      have hshort : r.rest.length < (t :: rest).length :=
        Nat.lt_trans r.shorter (Nat.lt_succ_self _)
      exact junctionFrom_alike hrd hf r.rest hr.2 _ _
    · exact ⟨hleft, .cons ht hrest⟩
termination_by tokens.length
decreasing_by
  subst_vars
  exact hshort

/-- A run is read alike if its operands are. -/
theorem junction_alike (hrd : c.ReadersAlike SameProper rd rd') :
    c.ReadersAlike SameProper (junction ⟨ctx.builder, text⟩ kind rd)
      (junction ⟨ctx.builder, text'⟩ kind rd') := by
  intro tokens tokens' h
  refine Alike.bind (hrd tokens tokens' h) fun r r' hr => ?_
  exact junctionFrom_alike hrd hr.1 r.rest hr.2 _ _

theorem filterOf_alike (hrd : c.ReadersAlike SameProper rd rd') :
    c.ReadersAlike SameProper (filterOf ⟨ctx.builder, text⟩ rd)
      (filterOf ⟨ctx.builder, text'⟩ rd') :=
  junction_alike (junction_alike hrd)

/-! ## Operands -/

variable (c) in
/-- There is a level further in for both, with readers that read alike, or for neither. -/
def DeeperAlike : Deeper (Except FilterError) Filter → Deeper (Except FilterError) Filter → Prop
  | some inner, some inner' => ∀ e, c.ReadersAlike SameProper (inner e) (inner' e)
  | none, none => True
  | _, _ => False

variable {deeper deeper' : Deeper (Except FilterError) Filter} {e : Entity}

/-- Both readers go one level deeper, or neither may. -/
theorem enter_alike (h : c.DeeperAlike deeper deeper') :
    c.Alike (fun inner inner' => ∀ e, c.ReadersAlike SameProper (inner e) (inner' e))
      (enter ⟨ctx.builder, text⟩ deeper) (enter ⟨ctx.builder, text'⟩ deeper') := by
  cases deeper with
  | none =>
    cases deeper' with
    | none => exact c.other fun flaw s quoted hne => by cases hne
    | some inner' => exact h.elim
  | some inner =>
    cases deeper' with
    | none => exact h.elim
    | some inner' => exact h

/-- A filter in parentheses is read alike. -/
theorem enclosed_alike (hd : c.DeeperAlike deeper deeper') {flaw : Flaw} {paren paren' : Span}
    (hparen : c.span paren paren') :
    c.ReadersAlike SameProper (enclosed ⟨ctx.builder, text⟩ deeper e flaw paren)
      (enclosed ⟨ctx.builder, text'⟩ deeper' e flaw paren') := by
  intro tokens tokens' h
  refine Alike.bind (enter_alike hd) fun inner inner' hinner => ?_
  refine Alike.bind (filterOf_alike (hinner e) tokens tokens' h) fun f f' hf => ?_
  simp only [ofExcept_eq]
  refine Alike.bind (closing_alike hparen f.rest f'.rest hf.2) fun close close' hclose => ?_
  exact ⟨hf.1, hclose.2⟩

/-- The body of a test is read alike, and is open where nothing stands in it. -/
theorem body_alike (hd : c.DeeperAlike deeper deeper') {target : Entity} {paren paren' : Span}
    (hparen : c.span paren paren') :
    c.ReadersAlike SameUnclosed (body ⟨ctx.builder, text⟩ deeper target paren)
      (body ⟨ctx.builder, text'⟩ deeper' target paren') := by
  intro tokens tokens' h
  cases h with
  | nil => exact c.malformed _ (c.merge hparen c.stop)
  | @cons t t' rest rest' ht hrest =>
    simp only [body, ← ht.1]
    split
    · exact ⟨⟨rfl, rfl⟩, hrest⟩
    · exact Alike.mono (fun _ _ hf => ⟨⟨hf.1.1, hf.1.2.2⟩, hf.2⟩)
        (enclosed_alike hd hparen (t :: rest) (t' :: rest') (.cons ht hrest))

/-- A test is read alike behind corresponding names. -/
theorem test_alike (hd : c.DeeperAlike deeper deeper') {names names' : List Segment}
    (hnames : List.Forall₂ c.SegmentAlike names names') :
    c.ReadersAlike SameProper (test ⟨ctx.builder, text⟩ deeper e names)
      (test ⟨ctx.builder, text'⟩ deeper' e names') := by
  intro tokens tokens' h
  unfold test
  simp only [ofExcept_eq]
  split
  · next op _ rest =>
    obtain ⟨_, rest', rfl, -, hrest⟩ := TokensAlike.uncons h
    refine Alike.bind (parameter_alike rest rest' hrest) fun param param' hparam => ?_
    refine Alike.bind (resolve_alike hnames) fun resolved resolved' hresolved => ?_
    subst hresolved
    exact ⟨⟨rfl, rfl, rfl⟩, hparam.2⟩
  · next paren rest =>
    obtain ⟨paren', rest', rfl, hparen, hrest⟩ := TokensAlike.uncons h
    refine Alike.bind (resolve_alike hnames) fun resolved resolved' hresolved => ?_
    subst hresolved
    cases resolved.target with
    | none => exact c.malformed _ (spanOf_alike hnames)
    | some target =>
      refine Alike.bind (body_alike hd hparen rest rest' hrest) fun sub sub' hsub => ?_
      exact Alike.bind (existence_alike hsub.1) fun f f' hf => ⟨hf, hsub.2⟩
  · next hop hparen =>
    split
    · obtain ⟨_, _, rfl, -⟩ := TokensAlike.uncons_right h
      exact (hop _ _ _ rfl).elim
    · obtain ⟨_, _, rfl, -⟩ := TokensAlike.uncons_right h
      exact (hparen _ _ rfl).elim
    · refine Alike.bind (resolve_alike hnames) fun _ _ _ => ?_
      have hpeek := peekIn_alike h
      simp only [← hpeek.1]
      exact c.malformed _ hpeek.2

theorem tested_alike (hd : c.DeeperAlike deeper deeper') :
    c.ReadersAlike SameProper (tested ⟨ctx.builder, text⟩ deeper e)
      (tested ⟨ctx.builder, text'⟩ deeper' e) := by
  intro tokens tokens' h
  unfold tested
  simp only [ofExcept_eq]
  refine Alike.bind (segments_alike tokens tokens' h) fun names names' hnames => ?_
  exact Alike.bind (test_alike hd hnames.1 names.rest names'.rest hnames.2) fun f f' hf => hf

theorem negation_alike (hd : c.DeeperAlike deeper deeper') :
    c.ReadersAlike SameProper (negation ⟨ctx.builder, text⟩ deeper e)
      (negation ⟨ctx.builder, text'⟩ deeper' e) := by
  intro tokens tokens' h
  refine Alike.bind (enter_alike hd) fun inner inner' hinner => ?_
  refine Alike.bind (hinner e tokens tokens' h) fun f f' hf => ?_
  obtain ⟨⟨hsame, hproper⟩, hrest⟩ := hf
  exact ⟨⟨congrArg Filter.complement hsame, Filter.proper_complement.2 hproper⟩, hrest⟩

/-- Whether a marked hop begins is seen from the words alone. -/
theorem beginsOuter_alike {tokens tokens' : List Token} (h : c.TokensAlike tokens tokens') :
    beginsOuter tokens = beginsOuter tokens' := by
  unfold beginsOuter
  split
  · obtain ⟨_, _, rfl, -, h₁⟩ := TokensAlike.uncons h
    obtain ⟨_, _, rfl, -, h₂⟩ := TokensAlike.uncons h₁
    obtain ⟨_, _, rfl, -, -⟩ := TokensAlike.uncons h₂
    rfl
  · next hmarked =>
    split
    · obtain ⟨_, _, rfl, h₁⟩ := TokensAlike.uncons_right h
      obtain ⟨_, _, rfl, h₂⟩ := TokensAlike.uncons_right h₁
      obtain ⟨_, _, rfl, -⟩ := TokensAlike.uncons_right h₂
      exact (hmarked _ _ _ _ _ rfl).elim
    · rfl

/-- Operands are read alike if what is one level deeper is. -/
theorem operandOver_alike (hd : c.DeeperAlike deeper deeper') :
    c.ReadersAlike SameProper (operandOver ⟨ctx.builder, text⟩ deeper e)
      (operandOver ⟨ctx.builder, text'⟩ deeper' e) := by
  intro tokens tokens' h
  have houter := beginsOuter_alike h
  cases h with
  | nil => exact c.malformed _ c.stop
  | @cons t t' rest rest' ht hrest =>
    have htested : c.Alike (c.ReadAlike SameProper)
        (tested ⟨ctx.builder, text⟩ deeper e (t :: rest))
        (tested ⟨ctx.builder, text'⟩ deeper' e (t' :: rest')) :=
      tested_alike hd _ _ (.cons ht hrest)
    simp only [operandOver, ← ht.1, houter]
    split
    · exact Alike.bind (negation_alike hd rest rest' hrest) fun f f' hf => hf
    · split
      · exact htested
      · exact Alike.bind (enclosed_alike hd ht.2 rest rest' hrest) fun f f' hf => hf
    · exact htested
    · exact c.malformed _ ht.2

/-- Operands are read alike, however many levels may be entered. -/
theorem operand_alike (room : Nat) :
    c.ReadersAlike SameProper (operand ⟨ctx.builder, text⟩ room e)
      (operand ⟨ctx.builder, text'⟩ room e) := by
  induction room generalizing e with
  | zero => exact operandOver_alike trivial
  | succ room ih => exact operandOver_alike fun e => ih

/-- Filters are read alike from the same words. -/
theorem wholeFilter_alike {tokens tokens' : List Token} (h : c.TokensAlike tokens tokens') :
    c.Alike SameProper (wholeFilter ⟨ctx.builder, text⟩ e tokens)
      (wholeFilter ⟨ctx.builder, text'⟩ e tokens') := by
  unfold wholeFilter
  simp only [ofExcept_eq]
  refine Alike.bind (filterOf_alike (operand_alike _) tokens tokens' h) fun f f' hf => ?_
  exact Alike.bind (atEnd_alike hf.2) fun _ _ _ => hf.1

end Correspondence

end RowFilter
