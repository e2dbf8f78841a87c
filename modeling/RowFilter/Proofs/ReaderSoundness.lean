import RowFilter.Filter.Complement
import RowFilter.Proofs.Paths

/-!
# Whatever is read is spelled

The readers take nothing off the tokens but the words of a phrase, and what they build is what
the phrase denotes. Each way to build an operand or a run is a rule about spelling; the readers
are shown to go by these rules, from the inside out, so the number of levels that may still be
entered bounds the nesting of the phrase.
-/

namespace RowFilter

/-- Complementing turns open into closed, and nothing else into either. -/
@[simp] theorem Filter.proper_complement {f : Filter} : f.complement.Proper ↔ f.Proper := by
  rw [Filter.Proper, Filter.Proper, Filter.isOpen_complement, Filter.isClosed_complement,
    and_comm]

namespace Grammar

variable {ctx : Context} {text : String} {e : Entity} {room : Nat}

/-! ## What phrases denote -/

/-- A phrase denotes neither the open nor the closed filter, and its filter is about the entity
it is read over. -/
theorem Phrase.denote_proper {schema : Schema} {c : Category} (p : Phrase c) {e : Entity}
    {f : Filter} (h : p.denote schema e = some f) : f.Proper ∧ f.entity = e.name := by
  induction p generalizing e f with
  | single kind p ih => exact ih h
  | more kind before next =>
    obtain ⟨left, right, -, -, rfl⟩ := denote_more.1 h
    exact ⟨⟨rfl, rfl⟩, rfl⟩
  | not p ih =>
    obtain ⟨g, hg, rfl⟩ := denote_not.1 h
    rw [Filter.proper_complement, Filter.entity_complement]
    exact ih hg
  | group p ih => exact ih h
  | comparison path op =>
    obtain ⟨resolved, -, rfl⟩ := denote_comparison.1 h
    exact ⟨⟨rfl, rfl⟩, rfl⟩
  | anyRow path =>
    obtain ⟨resolved, target, -, -, rfl⟩ := denote_anyRow.1 h
    exact ⟨⟨rfl, rfl⟩, rfl⟩
  | rows path body =>
    obtain ⟨resolved, target, sub, -, -, -, rfl⟩ := denote_rows.1 h
    exact ⟨⟨rfl, rfl⟩, rfl⟩

/-! ## Rules of spelling -/

namespace Spells

theorem single {kind : Junction} {ws : List Lexeme} {f : Filter}
    (h : Spells ctx room (.part kind) e ws f) : Spells ctx room (.run kind) e ws f := by
  obtain ⟨p, hws, hf, hn, hd⟩ := h
  exact ⟨.single kind p, hws, hf, hn, hd⟩

/-- A run goes on with its sign and another part, if the two can be joined. -/
theorem more {kind : Junction} {ws ws' : List Lexeme} {left right f : Filter}
    (hl : Spells ctx room (.run kind) e ws left) (hr : Spells ctx room (.part kind) e ws' right)
    (h : ctx.builder.join kind left right = .ok f) :
    Spells ctx room (.run kind) e (ws ++ signOf kind :: ws') f := by
  obtain ⟨p, rfl, hp, hpn, -⟩ := hl
  obtain ⟨q, rfl, hq, hqn, -⟩ := hr
  obtain ⟨hpp, hpe⟩ := p.denote_proper hp
  obtain ⟨rfl, hdepth⟩ := (join_eq_ok hpp (q.denote_proper hq).1).1 h
  refine ⟨.more kind p q, rfl, ?_, Nat.max_le.2 ⟨hpn, hqn⟩, hdepth⟩
  exact Phrase.denote_more.2 ⟨left, right, hp, hq, by rw [hpe]⟩

/-- A sign in front spells the complement, one level further out. -/
theorem not {ws : List Lexeme} {f : Filter} (h : Spells ctx room .operand e ws f) :
    Spells ctx (room + 1) .operand e (.not :: ws) f.complement := by
  obtain ⟨p, rfl, hf, hn, hd⟩ := h
  refine ⟨.not p, rfl, Phrase.denote_not.2 ⟨f, hf, rfl⟩, Nat.succ_le_succ hn, ?_⟩
  rwa [Filter.depth_complement]

/-- Parentheses spell the same filter, one level further out. -/
theorem group {ws : List Lexeme} {f : Filter} (h : Spells ctx room .filter e ws f) :
    Spells ctx (room + 1) .operand e (.leftParen :: ws ++ [.rightParen]) f := by
  obtain ⟨p, rfl, hf, hn, hd⟩ := h
  exact ⟨.group p, rfl, hf, Nat.succ_le_succ hn, hd⟩

/-- A path, an operator and a sign spell the comparison with a parameter. -/
theorem comparison {path : Path} {op : RelOp} {resolved : Resolved}
    (h : path.resolve? ctx.schema e .comparison = some resolved) :
    Spells ctx room .operand e (path.lexemes ++ [.op op, .param])
      (.compare ⟨e.name, ⟨resolved.chain, op⟩, .unbound⟩) := by
  refine ⟨.comparison path op, rfl, ?_, Nat.zero_le _, ctx.config.maxDepth_pos⟩
  exact Phrase.denote_comparison.2 ⟨resolved, h, rfl⟩

/-- A path with nothing in the parentheses behind it spells the test for any row. -/
theorem anyRow {path : Path} {resolved : Resolved} {target : Entity} {f : Filter}
    (h : path.resolve? ctx.schema e .existence = some resolved) (ht : resolved.target = some target)
    (hf : ctx.builder.existence e.name resolved.chain false (.opened target.name) = .ok f) :
    Spells ctx room .operand e (path.lexemes ++ [.leftParen, .rightParen]) f := by
  obtain ⟨-, rfl, hdepth⟩ := existence_eq_ok.1 hf
  refine ⟨.anyRow path, rfl, ?_, Nat.zero_le _, hdepth⟩
  exact Phrase.denote_anyRow.2 ⟨resolved, target, h, ht, rfl⟩

/-- A path with a filter in the parentheses behind it spells the test over that filter. -/
theorem rows {path : Path} {resolved : Resolved} {target : Entity} {ws : List Lexeme}
    {sub f : Filter} (h : path.resolve? ctx.schema e .existence = some resolved)
    (ht : resolved.target = some target) (hsub : Spells ctx room .filter target ws sub)
    (hf : ctx.builder.existence e.name resolved.chain false sub = .ok f) :
    Spells ctx (room + 1) .operand e
      (path.lexemes ++ .leftParen :: ws ++ [.rightParen]) f := by
  obtain ⟨p, rfl, hp, hn, -⟩ := hsub
  obtain ⟨-, rfl, hdepth⟩ := existence_eq_ok.1 hf
  refine ⟨.rows path p, rfl, ?_, Nat.succ_le_succ hn, hdepth⟩
  exact Phrase.denote_rows.2 ⟨resolved, target, sub, h, ht, hp, rfl⟩

end Spells

/-! ## Single words -/

theorem parameter_sound {op : RelOp} {tokens : List Token} {r : Reading Unit tokens}
    (h : parameter text op tokens = .ok r) :
    Begins tokens [.param] r.rest := by
  unfold parameter at h
  split at h
  · obtain rfl := Except.ok.inj h
    exact (Begins.nil _).cons
  · exact nomatch h

theorem closing_sound {flaw : Flaw} {paren : Span} {tokens : List Token}
    {r : Reading Unit tokens}
    (h : closing text flaw paren tokens = .ok r) : Begins tokens [.rightParen] r.rest := by
  unfold closing at h
  split at h
  · obtain rfl := Except.ok.inj h
    exact (Begins.nil _).cons
  · exact nomatch h

theorem atEnd_eq_ok {tokens : List Token} :
    atEnd text tokens = .ok () ↔ tokens = [] := by
  unfold atEnd
  split <;> simp

/-! ## Runs -/

/-- What the reader takes off the tokens spells what it reads. -/
def SoundReader (ctx : Context) (room : Nat) (c : Category) (e : Entity)
    (rd : TokenReader (Except FilterError) Filter) : Prop :=
  ∀ (tokens : List Token) (r : Reading Filter tokens), rd tokens = .ok r →
    ∃ ws, Begins tokens ws r.rest ∧ Spells ctx room c e ws r.value

/-- What was read so far and what is read now spell the run; by recursion on the words that are
left. -/
theorem junctionFrom_sound {kind : Junction} {rd : TokenReader (Except FilterError) Filter}
    (hrd : SoundReader ctx room (.part kind) e rd) {input : List Token} {left : Filter}
    (tokens : List Token) {hlt : tokens.length < input.length} {r : Reading Filter input}
    {ws : List Lexeme} (hleft : Spells ctx room (.run kind) e ws left)
    (h : junctionFrom ⟨ctx.builder, text⟩ kind rd left tokens hlt = .ok r) :
    ∃ ws', Begins tokens ws' r.rest ∧ Spells ctx room (.run kind) e (ws ++ ws') r.value := by
  unfold junctionFrom at h
  cases tokens with
  | nil =>
    obtain rfl := Except.ok.inj h
    exact ⟨[], Begins.nil _, by rwa [List.append_nil]⟩
  | cons t rest =>
    simp only at h
    split at h
    · next hsign =>
      obtain ⟨right, hright, h⟩ := bind_eq_ok.1 h
      obtain ⟨f, hf, h⟩ := bind_eq_ok.1 h
      -- the run so far grows by the sign and the part, and spells what was joined
      obtain ⟨ws₁, hbegins, hspells⟩ := hrd _ _ hright
      have hshort : right.rest.length < (t :: rest).length :=
        Nat.lt_trans right.shorter (Nat.lt_succ_self _)
      obtain ⟨ws₂, hbegins', hspells'⟩ :=
        junctionFrom_sound hrd right.rest (hleft.more hspells hf) h
      refine ⟨t.lexeme :: ws₁ ++ ws₂, hbegins.cons.append hbegins', ?_⟩
      rw [hsign, ← List.append_assoc]
      exact hspells'
    · obtain rfl := Except.ok.inj h
      exact ⟨[], Begins.nil _, by rwa [List.append_nil]⟩
termination_by tokens.length
decreasing_by
  subst_vars
  exact hshort

/-- A run that is read is spelled by the words it is read from. -/
theorem junction_sound {kind : Junction} {rd : TokenReader (Except FilterError) Filter}
    (hrd : SoundReader ctx room (.part kind) e rd) :
    SoundReader ctx room (.run kind) e (junction ⟨ctx.builder, text⟩ kind rd) := by
  intro tokens r h
  obtain ⟨left, hleft, h⟩ := bind_eq_ok.1 h
  obtain ⟨ws, hbegins, hspells⟩ := hrd _ _ hleft
  obtain ⟨ws', hbegins', hspells'⟩ := junctionFrom_sound hrd left.rest hspells.single h
  exact ⟨ws ++ ws', hbegins.append hbegins', hspells'⟩

theorem filterOf_sound {rd : TokenReader (Except FilterError) Filter}
    (hrd : SoundReader ctx room .operand e rd) :
    SoundReader ctx room .filter e (filterOf ⟨ctx.builder, text⟩ rd) := by
  have hand : SoundReader ctx room (.run .and) e (junction ⟨ctx.builder, text⟩ .and rd) :=
    junction_sound hrd
  exact junction_sound hand

/-! ## Operands -/

/-- The readers one level further in, if there is such a level, are sound for one level less. -/
def SoundDeeper (ctx : Context) (room : Nat) (deeper : Deeper (Except FilterError) Filter) :
    Prop :=
  ∀ inner, deeper = some inner →
    ∃ room', room = room' + 1 ∧ ∀ e, SoundReader ctx room' .operand e (inner e)

/-- One may go deeper just if there is a reader for it. -/
theorem enter_eq_ok {deeper : Deeper (Except FilterError) Filter}
    {inner : Entity → TokenReader (Except FilterError) Filter} :
    enter ⟨ctx.builder, text⟩ deeper = .ok inner ↔ deeper = some inner := by
  cases deeper with
  | none => exact ⟨fun h => (nomatch h), fun h => (nomatch h)⟩
  | some inner' =>
    exact ⟨fun h => congrArg some (Except.ok.inj h), fun h =>
      congrArg Except.ok (Option.some.inj h)⟩

variable {deeper : Deeper (Except FilterError) Filter}

/-- What stands between parentheses is spelled one level further in. -/
theorem enclosed_sound (hd : SoundDeeper ctx room deeper) {flaw : Flaw} {paren : Span}
    {tokens : List Token} {r : Reading Filter tokens}
    (h : enclosed ⟨ctx.builder, text⟩ deeper e flaw paren tokens = .ok r) :
    ∃ room' ws, room = room' + 1 ∧ Begins tokens (ws ++ [.rightParen]) r.rest ∧
      Spells ctx room' .filter e ws r.value := by
  obtain ⟨inner, hinner, h⟩ := bind_eq_ok.1 h
  obtain ⟨room', hroom, hsound⟩ := hd inner (enter_eq_ok.1 hinner)
  obtain ⟨f, hf, h⟩ := bind_eq_ok.1 h
  obtain ⟨ws, hbegins, hspells⟩ := filterOf_sound (hsound e) _ _ hf
  obtain ⟨close, hclose, h⟩ := bind_eq_ok.1 h
  rw [ofExcept_eq] at hclose
  obtain rfl := pure_eq_ok.1 h
  exact ⟨room', ws, hroom, hbegins.append (closing_sound hclose), hspells⟩

/-- A test behind a chain, together with the path that the chain was read from. -/
theorem test_sound (hd : SoundDeeper ctx room deeper) {names : List Segment} {path : Path}
    (hpath : names.map Segment.hop = path.names) {tokens : List Token}
    {r : Reading Filter tokens}
    (h : test ⟨ctx.builder, text⟩ deeper e names tokens = .ok r) :
    ∃ ws, Begins tokens ws r.rest ∧
      Spells ctx room .operand e (path.lexemes ++ ws) r.value := by
  unfold test at h
  split at h
  case h_1 op span rest =>
    obtain ⟨param, hparam, h⟩ := bind_eq_ok.1 h
    obtain ⟨resolved, hresolved, h⟩ := bind_eq_ok.1 h
    obtain ⟨f, hf, h⟩ := bind_eq_ok.1 h
    obtain rfl := pure_eq_ok.1 h
    obtain rfl := Except.ok.inj hf
    rw [ofExcept_eq] at hparam hresolved
    refine ⟨[.op op, .param], (parameter_sound hparam).cons, ?_⟩
    exact Spells.comparison ((resolve_eq_ok hpath).1 hresolved)
  case h_2 paren rest =>
    obtain ⟨resolved, hresolved, h⟩ := bind_eq_ok.1 h
    rw [ofExcept_eq] at hresolved
    have hresolves := (resolve_eq_ok hpath).1 hresolved
    split at h
    · exact nomatch h
    · next target htarget =>
      obtain ⟨sub, hsub, h⟩ := bind_eq_ok.1 h
      obtain ⟨f, hf, h⟩ := bind_eq_ok.1 h
      obtain rfl := pure_eq_ok.1 h
      unfold body at hsub
      split at hsub
      · exact nomatch hsub
      · split at hsub
        -- the parenthesis is closed right away, or it encloses a filter over the target
        · next ht =>
          obtain ⟨opened, hopened, hsub⟩ := bind_eq_ok.1 hsub
          obtain rfl := pure_eq_ok.1 hsub
          obtain rfl := Except.ok.inj hopened
          refine ⟨[.leftParen, .rightParen], ?_, Spells.anyRow hresolves htarget hf⟩
          rw [← ht]
          exact (Begins.nil _).cons.cons
        · obtain ⟨room', ws, rfl, hbegins, hspells⟩ := enclosed_sound hd hsub
          refine ⟨.leftParen :: (ws ++ [.rightParen]), hbegins.cons, ?_⟩
          have hrows := Spells.rows hresolves htarget hspells hf
          rwa [List.append_assoc] at hrows
  case h_3 =>
    -- no operator and no parenthesis: an error, whether or not the chain resolves
    obtain ⟨resolved, -, h⟩ := bind_eq_ok.1 h
    exact nomatch h

/-- A test is spelled by its words. -/
theorem tested_sound (hd : SoundDeeper ctx room deeper) :
    SoundReader ctx room .operand e (tested ⟨ctx.builder, text⟩ deeper e) := by
  intro tokens r h
  obtain ⟨names, hnames, h⟩ := bind_eq_ok.1 h
  obtain ⟨f, hf, h⟩ := bind_eq_ok.1 h
  obtain rfl := pure_eq_ok.1 h
  rw [ofExcept_eq] at hnames
  obtain ⟨path, hbegins, hpath⟩ := segments_sound hnames
  obtain ⟨ws, hbegins', hspells⟩ := test_sound hd hpath hf
  exact ⟨path.lexemes ++ ws, hbegins.append hbegins', hspells⟩

/-- Each form of an operand is spelled by its words, if what is one level deeper is. -/
theorem operandOver_sound (hd : SoundDeeper ctx room deeper) :
    SoundReader ctx room .operand e (operandOver ⟨ctx.builder, text⟩ deeper e) := by
  intro tokens r h
  cases tokens with
  | nil => exact nomatch h
  | cons t rest =>
    obtain ⟨lexeme, span⟩ := t
    cases lexeme with
    | not =>
      obtain ⟨f, hf, h⟩ := bind_eq_ok.1 h
      obtain rfl := pure_eq_ok.1 h
      obtain ⟨inner, hinner, hf⟩ := bind_eq_ok.1 hf
      obtain ⟨room', rfl, hsound⟩ := hd inner (enter_eq_ok.1 hinner)
      obtain ⟨g, hg, hf⟩ := bind_eq_ok.1 hf
      obtain ⟨c, hc, hf⟩ := bind_eq_ok.1 hf
      obtain rfl := pure_eq_ok.1 hf
      obtain rfl := Except.ok.inj hc
      obtain ⟨ws, hbegins, hspells⟩ := hsound e _ _ hg
      exact ⟨.not :: ws, hbegins.cons, hspells.not⟩
    | leftParen =>
      simp only [operandOver] at h
      -- `(name)` begins a path, anything else in parentheses is a group
      split at h
      · exact tested_sound hd _ _ h
      · obtain ⟨f, hf, h⟩ := bind_eq_ok.1 h
        obtain rfl := pure_eq_ok.1 h
        obtain ⟨room', ws, rfl, hbegins, hspells⟩ := enclosed_sound hd hf
        exact ⟨.leftParen :: ws ++ [.rightParen], hbegins.cons, hspells.group⟩
    | name n => exact tested_sound hd _ _ h
    | _ => exact nomatch h

/-- Operands are spelled by their words at any level, by induction on how deep they may nest. -/
theorem operand_sound (room : Nat) (e : Entity) :
    SoundReader ctx room .operand e (operand ⟨ctx.builder, text⟩ room e) := by
  -- on the levels left: each level is sound if the next one is, and the last enters none
  induction room generalizing e with
  | zero => exact operandOver_sound fun inner h => (nomatch h)
  | succ room ih =>
    refine operandOver_sound fun inner h => ⟨room, rfl, ?_⟩
    obtain rfl := Option.some.inj h
    exact ih

/-- A text that is read is spelled. -/
theorem wholeFilter_sound {tokens : List Token} {f : Filter}
    (h : wholeFilter ⟨ctx.builder, text⟩ e tokens = .ok f) :
    Spells ctx ctx.config.maxDepth .filter e (tokens.map Token.lexeme) f := by
  obtain ⟨r, hr, h⟩ := bind_eq_ok.1 h
  obtain ⟨u, hend, h⟩ := bind_eq_ok.1 h
  obtain rfl := pure_eq_ok.1 h
  rw [ofExcept_eq] at hend
  obtain ⟨ws, hbegins, hspells⟩ := filterOf_sound (operand_sound _ e) _ _ hr
  rw [atEnd_eq_ok.1 hend] at hbegins
  rw [Begins.all_iff.1 hbegins]
  exact hspells

end Grammar

end RowFilter
