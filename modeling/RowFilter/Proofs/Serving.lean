import RowFilter.Pool.Request
import RowFilter.Proofs.ReaderCompleteness
import RowFilter.Proofs.RewritingInPool
import RowFilter.Proofs.TokenText

/-!
# Serving requests

A pool answers every request with the instances of the filters that the context answers without
a pool, and stays sound. The memo of parsed texts is the last piece: it is looked up by the text
of the tokens, which determines the words, and the words determine what is read.
-/

namespace RowFilter.Pool

open RowFilter.Grammar

variable {ctx : Context} {pool : Pool}

/-! ## Parsing with the memo -/

/-- What a text spells depends on the words of its tokens alone. -/
theorem wholeFilter_eq_of_words {e : Entity} {text text' : String} {tokens tokens' : List Token}
    (hwords : tokens.map Token.lexeme = tokens'.map Token.lexeme) {f : Filter}
    (h : wholeFilter ⟨ctx.builder, text⟩ e tokens = .ok f) :
    wholeFilter ⟨ctx.builder, text'⟩ e tokens' = .ok f := by
  rw [wholeFilter_eq_ok] at h ⊢
  rwa [← hwords]

/-- The pool that remembers the instance of what some tokens spell. -/
theorem Sound.remember_parsed (hs : Sound ctx pool) {name text : String} {e : Entity}
    {tokens : List Token} {i : Instance} (he : ctx.entity name = .ok e)
    (hscan : scan text = .ok tokens) (hi : pool.Holds i)
    (hread : wholeFilter ⟨ctx.builder, text⟩ e tokens = .ok i.filter) :
    Sound ctx { pool with parsed := pool.parsed.insert (e.name, Token.text tokens) i } := by
  refine { (hs.congr rfl).1 with
    complements := hs.complements, bound := hs.bound, parsed := ?_ }
  intro name' key j h
  rw [Std.HashMap.getElem?_insert] at h
  split at h
  · next hkey =>
    obtain rfl := Option.some.inj h
    obtain ⟨rfl, rfl⟩ := Prod.mk.inj (eq_of_beq hkey)
    refine ⟨hi, ⟨text, tokens, hscan, rfl⟩, ?_⟩
    intro text' tokens' hscan' htext
    -- another text with this token text has the same words, at other places perhaps
    have hwords : tokens.map Token.lexeme = tokens'.map Token.lexeme :=
      lexemes_eq_of_text_eq (scan_scanned hscan) (scan_scanned hscan') htext.symm
    unfold Context.parse
    rw [Schema.lookup_name he, he]
    show ctx.builder.parseOver e text' = _
    unfold Builder.parseOver
    rw [ofExcept_eq, hscan']
    exact wholeFilter_eq_of_words hwords hread
  · exact hs.parsed h

/-- Reading a text, with or without the memo, gives the instance of what it spells. -/
theorem follows_parse {name text : String} :
    Follows ctx Stands pool (parse ctx name text) (ctx.parse name text) := by
  have hpure : ctx.parse name text = MonadExcept.ofExcept (ctx.entity name) >>= fun e =>
      MonadExcept.ofExcept (scan text) >>= wholeFilter ⟨ctx.builder, text⟩ e := by
    rw [ofExcept_eq]
    rfl
  rw [hpure]
  refine Follows.ofExcept_bind fun e he => Follows.ofExcept_bind fun tokens hscan => ?_
  have he : ctx.entity name = .ok e := he
  have hread : Follows ctx Stands pool (wholeFilter ⟨builder ctx, text⟩ e tokens)
      (wholeFilter ⟨ctx.builder, text⟩ e tokens) := follows_wholeFilter e tokens
  split
  · exact hread
  · refine Follows.of_sound fun hs => Follows.get_bind ?_
    split
    · next known hk =>
      -- the entry says what every text with these tokens spells, this one among them
      obtain ⟨hknown, -, hparse⟩ := hs.parsed hk
      have hresult : wholeFilter ⟨ctx.builder, text⟩ e tokens = .ok known.filter := by
        have h := hparse hscan rfl
        rw [Schema.lookup_name he, hpure, ofExcept_eq, ofExcept_eq, he, hscan] at h
        exact h
      rw [hresult]
      exact Follows.pure hknown.stands
    · -- the text is read, and only what was read without an error is remembered
      rw [← bind_pure (wholeFilter ⟨ctx.builder, text⟩ e tokens)]
      refine Follows.bind hread.attained fun pool₁ i f hg₁ h => ?_
      obtain ⟨⟨hi, rfl⟩, hresult⟩ := h
      refine Follows.modify_bind (fun hs₁ => ?_) (Follows.pure hi.stands)
      exact ⟨hs₁.remember_parsed he hscan hi hresult, fun _ h => h⟩

/-! ## Answers -/

theorem Follows.single {x : Attempt Instance} {y : Except FilterError Filter}
    (h : Follows ctx Stands pool x y) :
    Follows ctx StandAll pool (do return [← x]) (do return [← y]) :=
  Follows.bind h fun _ _ _ _ hi => Follows.pure (standAll_singleton hi)

/-- A request about instances of the pool is answered with the instances of the filters that
answer the query about their filters. -/
theorem follows_serve {q : Request} (hq : ∀ i ∈ q.arguments, pool.Holds i) :
    Follows ctx StandAll pool (serve ctx q) (ctx.answer (q.map Instance.filter)) := by
  cases q with
  | parse entity text => exact follows_parse.single
  | comparison entity path op => exact follows_comparison.single
  | constant entity path op v => exact follows_constant.single
  | rowsAt entity path sub negated =>
    exact (follows_rowsAt (hq sub (by simp [Query.arguments]))).single
  | opened entity => exact follows_opened.single
  | closed entity => exact follows_closed.single
  | combine kind left right =>
    have hl : pool.Holds left := hq left (by simp [Query.arguments])
    have hr : pool.Holds right := hq right (by simp [Query.arguments])
    exact (follows_combine hl hr).single
  | complement i =>
    exact (follows_complement (hq i (by simp [Query.arguments]))).single
  | bind i =>
    have hbind : Follows ctx Stands pool (liftM (bind i)) (.ok i.filter.bind) :=
      Follows.lift (yields_bind (hq i (by simp [Query.arguments])))
    exact hbind.single
  | optimize i => exact (follows_optimize (hq i (by simp [Query.arguments]))).single
  | normalForm outer i => exact (follows_normalForm (hq i (by simp [Query.arguments]))).single
  | split outer i => exact follows_split (hq i (by simp [Query.arguments]))
  | rebuild outline => exact (follows_rebuild outline).single
  | decode bytes =>
    have hdecode : Follows ctx Stands pool ((builder ctx).decode bytes)
        (ctx.builder.decode bytes) :=
      Follows.ofExcept_bind fun outline _ => follows_rebuild outline
    exact hdecode.single

end RowFilter.Pool
