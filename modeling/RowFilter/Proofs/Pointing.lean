import RowFilter.Proofs.Clauses
import RowFilter.Proofs.Positions
import RowFilter.Proofs.Sessions
import RowFilter.Proofs.Tiling

/-!
# Errors point into their texts

An error about a text says which bytes of the text it is about. They are bytes of the text that is
quoted, from one boundary between characters to another, so that they can be shown. What is quoted
is what was read: the text of a filter, the text of a chain, or a path. Where names came without a
text, the names with dots between them are quoted; an existence test over the closed filter is
quoted as it would be written.
-/

namespace RowFilter

open RowFilter.Grammar

/-! ## Bytes of a text -/

/-- The bytes of the span are bytes of the text, and no character is cut at either end. -/
structure Span.Within (s : Span) (text : String) : Prop where
  start_le_stop : s.start ≤ s.stop
  stop_le : s.stop ≤ text.utf8ByteSize
  start_valid : String.Pos.Raw.IsValid text ⟨s.start⟩
  stop_valid : String.Pos.Raw.IsValid text ⟨s.stop⟩

namespace Span.Within

variable {a b : Span} {text : String}

/-- The bytes of a piece of a text. -/
theorem of_append (front piece back : String) :
    Span.Within ⟨front.utf8ByteSize, front.utf8ByteSize + piece.utf8ByteSize⟩
      (front ++ piece ++ back) where
  start_le_stop := Nat.le_add_right _ _
  stop_le := by simp
  start_valid := String.Pos.Raw.isValid_iff_exists_append.2
    ⟨front, piece ++ back, String.append_assoc .., rfl⟩
  stop_valid := String.Pos.Raw.isValid_iff_exists_append.2
    ⟨front ++ piece, back, rfl, by simp [String.rawEndPos]⟩

/-- The bytes of a piece of a text that is given by its characters. -/
theorem of_toList {front piece back : List Char} (h : text.toList = front ++ (piece ++ back)) :
    Span.Within ⟨byteLength front, byteLength front + byteLength piece⟩ text := by
  have htext : text = String.ofList front ++ String.ofList piece ++ String.ofList back := by
    rw [← String.toList_inj]
    simp [h]
  have hsize : ∀ cs : List Char, byteLength cs = (String.ofList cs).utf8ByteSize := by
    intro cs
    rw [← byteLength_toList, String.toList_ofList]
  rw [htext, hsize, hsize]
  exact of_append ..

/-- The empty span at the front lies in every text. -/
theorem zero (text : String) : Span.Within .zero text where
  start_le_stop := Nat.le_refl 0
  stop_le := Nat.zero_le _
  start_valid := String.Pos.Raw.isValid_zero
  stop_valid := String.Pos.Raw.isValid_zero

/-- The end of the text. -/
theorem stop (text : String) : Span.Within (.point text.utf8ByteSize) text where
  start_le_stop := Nat.le_refl _
  stop_le := Nat.le_refl _
  start_valid := String.Pos.Raw.isValid_rawEndPos
  stop_valid := String.Pos.Raw.isValid_rawEndPos

/-- The whole text. -/
theorem whole (text : String) : Span.Within ⟨0, text.utf8ByteSize⟩ text where
  start_le_stop := Nat.zero_le _
  stop_le := Nat.le_refl _
  start_valid := String.Pos.Raw.isValid_zero
  stop_valid := String.Pos.Raw.isValid_rawEndPos

/-- A span from one word to another lies in the text that has both words. -/
theorem merge (ha : a.Within text) (hb : b.Within text) : (a.merge b).Within text where
  start_le_stop :=
    Nat.le_trans (Nat.min_le_left _ _) (Nat.le_trans ha.start_le_stop (Nat.le_max_left _ _))
  stop_le := Nat.max_le.2 ⟨ha.stop_le, hb.stop_le⟩
  start_valid := by
    rcases Nat.le_total a.start b.start with hle | hle
    · simpa [Span.merge, Nat.min_eq_left hle] using ha.start_valid
    · simpa [Span.merge, Nat.min_eq_right hle] using hb.start_valid
  stop_valid := by
    rcases Nat.le_total a.stop b.stop with hle | hle
    · simpa [Span.merge, Nat.max_eq_right hle] using hb.stop_valid
    · simpa [Span.merge, Nat.max_eq_left hle] using ha.stop_valid

end Span.Within

/-! ## What can go wrong -/

namespace FilterError

/-- The error, if it is about bytes of a text, is about bytes that the text has. -/
def Placed : FilterError → Prop
  | .malformed _ span quoted => span.Within quoted
  | _ => True

/-- The error, if it is about bytes of a text, is about bytes of this one. -/
def Quotes (text : String) : FilterError → Prop
  | .malformed _ span quoted => quoted = text ∧ span.Within text
  | _ => True

/-- The error is about no text. -/
def Textless : FilterError → Prop
  | .malformed _ _ _ => False
  | _ => True

variable {text : String} {e : FilterError}

theorem Textless.quotes (h : e.Textless) (text : String) : e.Quotes text := by
  cases e with
  | malformed flaw span quoted => exact h.elim
  | _ => trivial

/-- An error about bytes of a known text is about bytes of the text it quotes. -/
theorem Quotes.placed (h : e.Quotes text) : e.Placed := by
  cases e with
  | malformed flaw span quoted =>
    obtain ⟨rfl, hspan⟩ := h
    exact hspan
  | _ => trivial

theorem Textless.placed (h : e.Textless) : e.Placed :=
  (h.quotes "").placed

end FilterError

/-- The computation fails with such errors only. -/
def FailsWith {α : Type} (P : FilterError → Prop) (x : Except FilterError α) : Prop :=
  ∀ e, x = .error e → P e

namespace FailsWith

variable {α β : Type} {P Q : FilterError → Prop} {x : Except FilterError α}

theorem ok (a : α) : FailsWith P (.ok a) :=
  fun _ h => by cases h

theorem error {e : FilterError} (h : P e) : FailsWith P (.error e : Except FilterError α) :=
  fun _ he => Except.error.inj he ▸ h

theorem mono (h : FailsWith P x) (hPQ : ∀ e, P e → Q e) : FailsWith Q x :=
  fun e he => hPQ e (h e he)

/-- A computation in two steps fails as the first does, or as the second does with what the first
gave. -/
theorem bind {k : α → Except FilterError β} (h : FailsWith P x)
    (hk : ∀ a, x = .ok a → FailsWith P (k a)) : FailsWith P (x >>= k) := by
  intro e he
  rcases bind_eq_error.1 he with he | ⟨a, ha, he⟩
  · exact h e he
  · exact hk a ha e he

/-- Going through a list fails as one of its items does. -/
theorem mapM {f : α → Except FilterError β} (h : ∀ a, FailsWith P (f a)) (items : List α) :
    FailsWith P (items.mapM f) := by
  intro e he
  obtain ⟨_, a, -, he, -⟩ := mapM_eq_error.1 he
  exact h a e he

/-- A fold over a list fails as one of its steps does. -/
theorem foldlM {f : β → α → Except FilterError β} (h : ∀ b a, FailsWith P (f b a))
    (items : List α) (b : β) : FailsWith P (items.foldlM f b) := by
  induction items generalizing b with
  | nil => exact ok b
  | cons a items ih =>
    rw [List.foldlM_cons]
    exact (h b a).bind fun b' _ => ih b'

end FailsWith

/-! ## Reading a text -/

namespace Correspondence

/-- Bytes of a text correspond to themselves, and so do errors about them. -/
def within (text : String) : Correspondence text text where
  span s s' := s = s' ∧ s.Within text
  error e e' := e = e' ∧ e.Quotes text
  zero := ⟨rfl, .zero text⟩
  stop := ⟨rfl, .stop text⟩
  merge := by
    rintro a _ b _ ⟨rfl, ha⟩ ⟨rfl, hb⟩
    exact ⟨rfl, ha.merge hb⟩
  malformed := by
    rintro s _ flaw ⟨rfl, hs⟩
    exact ⟨rfl, rfl, hs⟩
  other := by
    intro e he
    refine ⟨rfl, ?_⟩
    cases e with
    | malformed flaw s quoted => exact absurd rfl (he flaw s quoted)
    | _ => trivial

variable {text : String}

/-- A reader that agrees with itself up to spans in a text fails with errors about this text. -/
theorem Alike.quotes {α : Type} {R : α → α → Prop} {x : Except FilterError α}
    (h : (within text).Alike R x x) : FailsWith (FilterError.Quotes text) x := by
  rintro e rfl
  exact h.2

/-- The tokens of a text stand at bytes of it. -/
theorem within_tokensAlike {tokens : List Token} (h : scan text = .ok tokens) :
    (within text).TokensAlike tokens tokens := by
  refine List.forall₂_same.2 fun t ht => ⟨rfl, rfl, ?_⟩
  obtain ⟨front, back, htext, hspan, -⟩ := (tiled_of_scan h).1.spelled t ht
  rw [hspan]
  exact .of_toList htext

end Correspondence

/-- What the scan refuses is somewhere in the text it scans. -/
theorem scan_quotes (text : String) : FailsWith (FilterError.Quotes text) (scan text) := by
  intro e he
  obtain ⟨before, c, behind, -, htext, -, -, hstops⟩ := stopsAt_of_scan he
  cases hstops with
  | character _ _ =>
    have hspan : Span.Within ⟨byteLength before, byteLength before + byteLength [c]⟩ text :=
      .of_toList htext
    exact ⟨rfl, hspan⟩
  | lone _ _ _ => trivial

variable {ctx : Context}

theorem Schema.lookup_textless (schema : Schema) (entity : String) :
    FailsWith FilterError.Textless (schema.lookup entity) := by
  unfold Schema.lookup
  split
  · exact .ok _
  · exact .error trivial

/-- A path that does not resolve is quoted, with the segment that is at fault. -/
theorem Schema.chainFor_quotes (schema : Schema) (e : Entity) (use : ChainUse) (path : String) :
    FailsWith (FilterError.Quotes path) (schema.chainFor e use path) := by
  refine (scan_quotes path).bind fun tokens hscan => ?_
  exact (Correspondence.wholeChain_alike (Correspondence.within_tokensAlike hscan)).quotes

/-- A text is refused for one of its own places. -/
theorem Context.parse_quotes (ctx : Context) (entity text : String) :
    FailsWith (FilterError.Quotes text) (ctx.parse entity text) := by
  refine ((ctx.schema.lookup_textless entity).mono fun _ h => h.quotes text).bind fun e _ => ?_
  unfold Builder.parseOver
  rw [ofExcept_eq]
  refine (scan_quotes text).bind fun tokens hscan => ?_
  exact (Correspondence.wholeFilter_alike (Correspondence.within_tokensAlike hscan)).quotes

theorem Context.parseChain_quotes (ctx : Context) (entity text : String) :
    FailsWith (FilterError.Quotes text) (ctx.parseChain entity text) :=
  ((ctx.schema.lookup_textless entity).mono fun _ h => h.quotes text).bind fun e _ =>
    (ctx.schema.chainFor_quotes e .standalone text).bind fun _ _ => .ok _

/-! ## Chains of names -/

/-- The segments of names with dots between them stand where the names do, behind whatever stands
in front of them. -/
theorem HopName.segmentsFrom_within (front : String) (names : List HopName) :
    ∀ s ∈ HopName.segmentsFrom front.utf8ByteSize names,
      s.span.Within (front ++ ".".intercalate (names.map HopName.property)) := by
  induction names generalizing front with
  | nil => simp [segmentsFrom]
  | cons h rest ih =>
    cases rest with
    | nil =>
      intro s hs
      obtain rfl := List.mem_singleton.1 hs
      simpa using Span.Within.of_append front h.property ""
    | cons next rest =>
      have htext : front ++ ".".intercalate ((h :: next :: rest).map HopName.property) =
          front ++ h.property ++ "." ++ ".".intercalate ((next :: rest).map HopName.property) := by
        simp [String.append_assoc]
      rw [htext]
      intro s hs
      rcases List.mem_cons.1 hs with rfl | hs
      · rw [String.append_assoc]
        exact .of_append ..
      · have hoffset : front.utf8ByteSize + h.property.utf8ByteSize + 1 =
            (front ++ h.property ++ ".").utf8ByteSize := by
          rw [String.utf8ByteSize_append, String.utf8ByteSize_append]
          rfl
        rw [hoffset] at hs
        exact ih _ s hs

/-- Names that do not resolve are quoted with dots between them, and the fault is one of the
names. -/
theorem Schema.chainOf_placed (schema : Schema) (e : Entity) (names : List HopName)
    (use : ChainUse) : FailsWith FilterError.Placed (schema.chainOf e names use) := by
  have hsegments : List.Forall₂
      (Correspondence.within (".".intercalate (names.map HopName.property))).SegmentAlike
      (HopName.segmentsFrom 0 names) (HopName.segmentsFrom 0 names) := by
    refine List.forall₂_same.2 fun s hs => ⟨rfl, rfl, ?_⟩
    simpa using HopName.segmentsFrom_within "" names s hs
  exact (Correspondence.resolve_alike hsegments).quotes.mono fun _ h => h.placed

/-! ## Steps of the builder -/

/-- The test over the closed filter is quoted as it would be written, from end to end. -/
theorem Chain.overClosed_placed (c : Chain) : c.overClosed.Placed :=
  Span.Within.whole (c.render ++ "(closed)")

theorem Chain.coerce_textless (c : Chain) (v : Value) :
    FailsWith FilterError.Textless (c.coerce v) := by
  unfold Chain.coerce
  split
  · exact .error trivial
  · split
    · exact .ok _
    · exact .error trivial

theorem ValueSet.fill_textless (vs : ValueSet) (index : Nat) (v : Value) :
    FailsWith FilterError.Textless (vs.fill index v) := by
  unfold fill
  split
  · exact .ok _
  · next s _ => exact (s.leaf.chain.coerce_textless v).bind fun _ _ => .ok _

namespace Context

theorem entity_textless (entity : String) :
    FailsWith FilterError.Textless (ctx.builder.entity entity) := by
  unfold Builder.entity
  rw [ofExcept_eq]
  exact ctx.schema.lookup_textless entity

theorem withinDepth_textless (n : Node Filter) :
    FailsWith FilterError.Textless (ctx.builder.withinDepth n) := by
  unfold Builder.withinDepth
  split
  · exact .error trivial
  · exact .ok _

/-- A junction is refused for its depth, without a text. -/
theorem join_textless (kind : Junction) (left right : Filter) :
    FailsWith FilterError.Textless (ctx.builder.join kind left right) := by
  unfold Builder.join
  split
  · exact .ok _
  · split
    · exact .ok _
    · exact withinDepth_textless _

theorem joinAll_textless (entity : String) (kind : Junction) (fs : List Filter) :
    FailsWith FilterError.Textless (ctx.builder.joinAll entity kind fs) := by
  cases fs with
  | nil => cases kind <;> exact .ok _
  | cons f rest => exact .foldlM (join_textless kind) rest f

theorem combine_textless (kind : Junction) (left right : Filter) :
    FailsWith FilterError.Textless (ctx.builder.combine kind left right) := by
  unfold Builder.combine
  split
  · exact join_textless kind left right
  · exact .error trivial

theorem matchTarget_textless (target : Option Entity) (sub : Filter) :
    FailsWith FilterError.Textless (ctx.builder.matchTarget target sub) := by
  unfold Builder.matchTarget
  split
  · split
    · exact .ok _
    · exact .error trivial
  · exact .ok _

/-- The one step with an error about a text, which it writes itself. -/
theorem existence_fails (entity : String) (chain : Chain) (negated : Bool) (sub : Filter) :
    FailsWith (fun e => e.Textless ∨ sub.isClosed = true ∧ e = chain.overClosed)
      (ctx.builder.existence entity chain negated sub) := by
  unfold Builder.existence
  split
  · next hclosed => exact .error (.inr ⟨hclosed, rfl⟩)
  · exact (withinDepth_textless _).mono fun _ => .inl

/-- A test is refused without a text, unless it is over the closed filter. -/
theorem existence_placed (entity : String) (chain : Chain) (negated : Bool) (sub : Filter) :
    FailsWith FilterError.Placed (ctx.builder.existence entity chain negated sub) := by
  refine (existence_fails entity chain negated sub).mono ?_
  rintro e (h | ⟨-, rfl⟩)
  · exact h.placed
  · exact chain.overClosed_placed

/-! ## Rewrites -/

/-- Clauses are refused for their number or their depth. -/
theorem split_textless (outer : Junction) (f : Filter) :
    FailsWith FilterError.Textless (ctx.split outer f) := by
  have hclauses : FailsWith FilterError.Textless (f.clauses outer ctx.config.maxClauses) := by
    intro e he
    obtain rfl := Filter.clauses_eq_error he
    trivial
  exact hclauses.bind fun cs _ => .mapM (joinAll_textless f.entity outer.dual) cs

theorem normalForm_textless (outer : Junction) (f : Filter) :
    FailsWith FilterError.Textless (ctx.normalForm outer f) :=
  (split_textless outer f).bind fun cs _ => joinAll_textless f.entity outer cs

/-- Reordering builds tests anew, and fails only as they do. -/
theorem reordered_placed (run : Option Junction) (f : Filter) :
    FailsWith FilterError.Placed (ctx.reordered run f) := by
  have hjoinAll : ∀ (entity : String) (kind : Junction) (fs : List Filter),
      FailsWith FilterError.Placed (ctx.joinAll entity kind fs) :=
    fun entity kind fs => (joinAll_textless entity kind fs).mono fun _ h => h.placed
  induction f generalizing run with
  | opened | closed | compare =>
    cases run <;> exact .ok _
  | existence e c negated sub ih =>
    have hstep : FailsWith FilterError.Placed (do
        let sub' ← ctx.joinAll sub.entity .and (← ctx.reordered none sub)
        if sub' = sub then return [Filter.existence e c negated sub]
        else return [← ctx.existence e c negated sub']) := by
      refine (ih none).bind fun fs _ => (hjoinAll _ _ fs).bind fun sub' _ => ?_
      split
      · exact .ok _
      · exact (existence_placed e c negated sub').bind fun _ _ => .ok _
    cases run <;> exact hstep
  | junction e kind left right ihl ihr =>
    refine (ihl (some kind)).bind fun ls _ => (ihr (some kind)).bind fun rs _ => ?_
    split
    · exact .ok _
    · exact (hjoinAll e kind _).bind fun _ _ => .ok _

theorem optimize_placed (f : Filter) : FailsWith FilterError.Placed (ctx.optimize f) :=
  (reordered_placed none f).bind fun fs _ =>
    (joinAll_textless f.entity .and fs).mono fun _ h => h.placed

/-! ## Outlines -/

mutual

/-- An outline is refused with the names it has as the text. -/
theorem rebuild_placed (o : Outline) : FailsWith FilterError.Placed (ctx.builder.rebuild o) := by
  cases o with
  | opened entity | closed entity =>
    rw [Builder.rebuild]
    exact ((entity_textless entity).mono fun _ h => h.placed).bind fun _ _ => .ok _
  | compare entity chain op operand =>
    rw [Builder.rebuild]
    refine ((entity_textless entity).mono fun _ h => h.placed).bind fun e _ => ?_
    simp only [ofExcept_eq]
    refine (ctx.schema.chainOf_placed e chain .comparison).bind fun r _ => ?_
    refine FailsWith.bind ?_ fun _ _ => .ok _
    cases operand with
    | unbound | bound => exact .ok _
    | constant v =>
      exact ((r.chain.coerce_textless v).mono fun _ h => h.placed).bind fun _ _ => .ok _
  | existence entity chain negated sub =>
    rw [Builder.rebuild]
    refine ((entity_textless entity).mono fun _ h => h.placed).bind fun e _ => ?_
    simp only [ofExcept_eq]
    refine (ctx.schema.chainOf_placed e chain .existence).bind fun r _ => ?_
    refine (rebuild_placed sub).bind fun f _ => ?_
    refine ((matchTarget_textless r.target f).mono fun _ h => h.placed).bind fun _ _ => ?_
    exact existence_placed e.name r.chain negated f
  | junction kind operands =>
    cases operands with
    | nil => exact .error trivial
    | cons first rest =>
      rw [Builder.rebuild]
      exact (rebuild_placed first).bind fun left _ => rebuildOnto_placed kind left rest

theorem rebuildOnto_placed (kind : Junction) (left : Filter) (rest : List Outline) :
    FailsWith FilterError.Placed (ctx.builder.rebuildOnto kind left rest) := by
  cases rest with
  | nil => exact .ok _
  | cons next rest =>
    rw [Builder.rebuildOnto]
    refine (rebuild_placed next).bind fun right _ => ?_
    refine ((combine_textless kind left right).mono fun _ h => h.placed).bind fun joined _ => ?_
    exact rebuildOnto_placed kind joined rest

end

theorem decodeAs_textless {α : Type} (ofItem? : Wire.Item → Option α) (bytes : List UInt8) :
    FailsWith FilterError.Textless (Wire.decodeAs ofItem? bytes) := by
  unfold Wire.decodeAs
  split
  · exact .error trivial
  · split
    · exact .ok _
    · exact .error trivial

theorem ofValues_textless (f : Filter) (values : List (Option Value)) :
    FailsWith FilterError.Textless (ValueSet.ofValues f values) := by
  have hfill : ∀ (values : List (Option Value)) (vs : ValueSet) (index : Nat),
      FailsWith FilterError.Textless (vs.fillFrom index values) := by
    intro values
    induction values with
    | nil => exact fun _ _ => .ok _
    | cons v rest ih =>
      intro vs index
      cases v with
      | none => exact ih vs (index + 1)
      | some v => exact (vs.fill_textless index v).bind fun vs' _ => ih vs' (index + 1)
  simp only [ValueSet.ofValues]
  split
  · exact .error trivial
  · exact hfill values _ 0

theorem rebuildValues_placed (o : ValuesOutline) :
    FailsWith FilterError.Placed (ctx.rebuildValues o) := by
  refine (rebuild_placed o.filter).bind fun f _ => ?_
  split
  · exact .error trivial
  · exact (ofValues_textless f o.values).mono fun _ h => h.placed

/-- Bytes that are no values, or values of no filter, are refused with a text that has the place. -/
theorem decodeValues_placed (bytes : List UInt8) :
    FailsWith FilterError.Placed (ctx.decodeValues bytes) :=
  ((decodeAs_textless _ bytes).mono fun _ h => h.placed).bind fun o _ => rebuildValues_placed o

end Context

/-! ## Answers -/

/-- The text that a query reads, if it reads one. -/
def Query.input? {φ : Type} : Query φ → Option String
  | parse _ text => some text
  | comparison _ path _ => some path
  | constant _ path _ _ => some path
  | rowsAt _ path _ _ => some path
  | _ => none

/-- The error of an existence test over the closed filter: the path was read, and the test is
quoted as it would be written. -/
def Query.OverClosed (ctx : Context) (q : Query Filter) (err : FilterError) : Prop :=
  ∃ entity path sub negated e r, q = .rowsAt entity path sub negated ∧
    ctx.entity entity = .ok e ∧ ctx.schema.chainFor e .existence path = .ok r ∧
      sub.isClosed = true ∧ err = r.chain.overClosed

namespace Context

/-- Whatever is wrong with a text that is read, the text is quoted. -/
theorem answer_quotes {q : Query Filter} {input : String} (hinput : q.input? = some input) :
    FailsWith (fun err => err.Quotes input ∨ q.OverClosed ctx err) (ctx.answer q) := by
  have hone : ∀ {P : FilterError → Prop} {x : Except FilterError Filter}, FailsWith P x →
      FailsWith P (do return [← x]) :=
    fun hx => hx.bind fun _ _ => .ok _
  have hentity : ∀ entity, FailsWith (fun err => err.Quotes input ∨ q.OverClosed ctx err)
      (ctx.builder.entity entity) :=
    fun entity => (entity_textless entity).mono fun _ h => .inl (h.quotes input)
  have hchain : ∀ e use, FailsWith (fun err => err.Quotes input ∨ q.OverClosed ctx err)
      (ctx.schema.chainFor e use input) :=
    fun e use => (ctx.schema.chainFor_quotes e use input).mono fun _ => .inl
  cases q with
  | parse entity text =>
    obtain rfl := Option.some.inj hinput
    exact hone ((ctx.parse_quotes entity text).mono fun _ => .inl)
  | comparison entity path op =>
    obtain rfl := Option.some.inj hinput
    refine hone ((hentity entity).bind fun e _ => ?_)
    simp only [ofExcept_eq]
    exact (hchain e .comparison).bind fun _ _ => .ok _
  | constant entity path op v =>
    obtain rfl := Option.some.inj hinput
    refine hone ((hentity entity).bind fun e _ => ?_)
    simp only [ofExcept_eq]
    refine (hchain e .comparison).bind fun r _ => ?_
    exact ((r.chain.coerce_textless v).mono fun _ h => .inl (h.quotes path)).bind fun _ _ => .ok _
  | rowsAt entity path sub negated =>
    obtain rfl := Option.some.inj hinput
    refine hone ((hentity entity).bind fun e he => ?_)
    simp only [ofExcept_eq]
    refine (hchain e .existence).bind fun r hr => ?_
    refine ((matchTarget_textless r.target sub).mono fun _ h => .inl (h.quotes path)).bind
      fun _ _ => (existence_fails e.name r.chain negated sub).mono ?_
    rintro err (h | ⟨hclosed, rfl⟩)
    · exact .inl (h.quotes path)
    · rw [Builder.entity, ofExcept_eq] at he
      exact .inr ⟨entity, path, sub, negated, e, r, rfl, he, hr, hclosed, rfl⟩
  | _ => cases hinput

/-- Whatever is wrong with a text, the bytes are bytes of it. -/
theorem answer_placed (q : Query Filter) : FailsWith FilterError.Placed (ctx.answer q) := by
  have hone : ∀ {x : Except FilterError Filter}, FailsWith FilterError.Placed x →
      FailsWith FilterError.Placed (do return [← x]) :=
    fun hx => hx.bind fun _ _ => .ok _
  cases hinput : q.input? with
  | some input =>
    refine (answer_quotes hinput).mono ?_
    rintro err (h | ⟨-, -, -, -, -, r, -, -, -, -, rfl⟩)
    · exact h.placed
    · exact r.chain.overClosed_placed
  | none =>
    cases q with
    | opened entity | closed entity =>
      exact hone (((entity_textless entity).mono fun _ h => h.placed).bind fun _ _ => .ok _)
    | combine kind left right =>
      exact hone ((combine_textless kind left right).mono fun _ h => h.placed)
    | complement f | bind f => exact .ok _
    | optimize f => exact hone (optimize_placed f)
    | normalForm outer f => exact hone ((normalForm_textless outer f).mono fun _ h => h.placed)
    | split outer f => exact (split_textless outer f).mono fun _ h => h.placed
    | rebuild outline => exact hone (rebuild_placed outline)
    | decode bytes =>
      refine hone (FailsWith.bind ?_ fun o _ => rebuild_placed o)
      rw [ofExcept_eq]
      exact (decodeAs_textless _ bytes).mono fun _ h => h.placed
    | _ => cases hinput

end Context

/-! ## Values -/

namespace ValueSet

theorem supplyAll_textless (vs : ValueSet) (values : List Value) :
    FailsWith FilterError.Textless (vs.supplyAll values) := by
  refine .foldlM (fun vs v => ?_) values vs
  unfold supply
  split
  · exact .error trivial
  · exact vs.fill_textless _ v

theorem valuesFor_textless (vs : ValueSet) (f : Filter) :
    FailsWith FilterError.Textless (vs.valuesFor f) := by
  have hread : ∀ (leaves : List Leaf) (read : List Value) (missing : Nat),
      FailsWith FilterError.Textless (vs.readFrom read missing leaves) := by
    intro leaves
    induction leaves with
    | nil =>
      intro read missing
      unfold readFrom
      split
      · exact .ok _
      · exact .error trivial
    | cons l rest ih =>
      intro read missing
      unfold readFrom
      split
      · exact ih read missing
      · exact .error trivial
      · split
        · exact .error trivial
        · exact ih _ missing
        · exact ih read _
  exact hread f.leaves [] 0

end ValueSet

/-! ## Sessions -/

/-- What a request reads does not depend on what stands for filters. -/
theorem Query.input?_map {φ ψ : Type} (g : φ → ψ) (q : Query φ) :
    (q.map g).input? = q.input? := by
  cases q <;> rfl

namespace Pool

variable {pool : Pool} {held : List Instance}

/-- In a session every error about bytes of a text is about bytes that the text has, from one
boundary between characters to another, whatever is asked. Where a text or a path was read, it is
quoted, unless the error is not about it but about the test for rows of the closed filter. The same
holds of chains on their own and of value sets from elsewhere; supplying values and reading them
back is never about a text. -/
theorem Reached.errors_point (h : Reached ctx pool held) :
    (∀ {q : Request}, (∀ i ∈ q.arguments, i ∈ held) →
      ∀ {flaw : Flaw} {span : Span} {quoted : String},
        ((serve ctx q).run pool).1 = .error (.malformed flaw span quoted) →
          span.Within quoted ∧ ∀ input, q.input? = some input → quoted = input ∨
            (q.map Instance.filter).OverClosed ctx (.malformed flaw span quoted)) ∧
      (∀ {entity text : String} {flaw : Flaw} {span : Span} {quoted : String},
        ctx.parseChain entity text = .error (.malformed flaw span quoted) →
          quoted = text ∧ span.Within text) ∧
      (∀ {o : ValuesOutline} {flaw : Flaw} {span : Span} {quoted : String},
        ctx.rebuildValues o = .error (.malformed flaw span quoted) → span.Within quoted) ∧
      (∀ {bytes : List UInt8} {flaw : Flaw} {span : Span} {quoted : String},
        ctx.decodeValues bytes = .error (.malformed flaw span quoted) → span.Within quoted) ∧
      ∀ (vs : ValueSet) (values : List Value) (f : Filter) (flaw : Flaw) (span : Span)
        (quoted : String), vs.supplyAll values ≠ .error (.malformed flaw span quoted) ∧
          vs.valuesFor f ≠ .error (.malformed flaw span quoted) := by
  refine ⟨fun {q} hq {flaw span quoted} hrun => ?_,
    fun hchain => ctx.parseChain_quotes _ _ _ hchain,
    fun hvalues => Context.rebuildValues_placed _ _ hvalues,
    fun hvalues => Context.decodeValues_placed _ _ hvalues,
    fun vs values f flaw span quoted =>
      ⟨fun herr => vs.supplyAll_textless values _ herr, fun herr => vs.valuesFor_textless f _ herr⟩⟩
  -- the session fails as the context does without a pool
  have hanswer : ctx.answer (q.map Instance.filter) = .error (.malformed flaw span quoted) := by
    rw [← h.serve_eq hq, hrun]
    rfl
  refine ⟨Context.answer_placed _ _ hanswer, fun input hinput => ?_⟩
  rw [← Query.input?_map Instance.filter] at hinput
  exact (Context.answer_quotes hinput _ hanswer).imp_left And.left

/-- Letters outside ASCII take more than one byte, and a name that was decoded may hold a dot. -/
theorem Sample.errors_point_behind_letters :
    (((serve Sample.context (.parse "order" "größe = ?")).run empty).1 =
        .error (.malformed (.unknownProperty "order" "größe") ⟨0, 7⟩ "größe = ?") ∧
      Span.Within ⟨0, 7⟩ "größe = ?") ∧
    ((serve Sample.context (.rebuild
        (.compare "line" [⟨"order", true⟩, ⟨"größe.é", false⟩] .eq .unbound))).run empty).1 =
        .error (.malformed (.unknownProperty "order" "größe.é") ⟨6, 16⟩ "order.größe.é") ∧
      Span.Within ⟨6, 16⟩ "order.größe.é" := by
  have hparse : ((serve Sample.context (.parse "order" "größe = ?")).run empty).1 =
      .error (.malformed (.unknownProperty "order" "größe") ⟨0, 7⟩ "größe = ?") :=
    Reached.start.serve_error (by simp [Query.arguments]) (by decide +kernel)
  have hrebuild : ((serve Sample.context (.rebuild
      (.compare "line" [⟨"order", true⟩, ⟨"größe.é", false⟩] .eq .unbound))).run empty).1 =
      .error (.malformed (.unknownProperty "order" "größe.é") ⟨6, 16⟩ "order.größe.é") :=
    Reached.start.serve_error (by simp [Query.arguments]) (by decide +kernel)
  exact ⟨⟨hparse, ((Reached.errors_point .start).1 (by simp [Query.arguments]) hparse).1⟩,
    hrebuild, ((Reached.errors_point .start).1 (by simp [Query.arguments]) hrebuild).1⟩

end Pool

end RowFilter
