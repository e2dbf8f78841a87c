import RowFilter.Proofs.ReaderSoundness

/-!
# Whatever is spelled is read

Every phrase whose paths resolve, which nests no further than there is room, and whose filter is
not too deep, is read to its end and gives the filter it denotes. Reading `(name)` as a mark
loses nothing: no phrase consists of a name, so no group begins like one. A run of operands is
read as far as its signs reach; that is why what follows a phrase matters for runs alone.
-/

namespace RowFilter.Grammar

variable {ctx : Context} {text : String} {e : Entity} {room : Nat}

/-! ## How phrases begin -/

/-- A path begins with a name, or with a name in parentheses. -/
theorem Path.lexemes_cases (path : Path) :
    (∃ n, path.lexemes = .name n :: tailLexemes path.rest) ∨
      ∃ n, path.lexemes = .leftParen :: .name n :: .rightParen :: tailLexemes path.rest := by
  obtain ⟨⟨name, outer⟩, rest⟩ := path
  cases outer with
  | false => exact .inl ⟨name, rfl⟩
  | true => exact .inr ⟨name, rfl⟩

/-- Words that can stand behind an opening parenthesis: they neither close it, nor are they a
name that is closed right away. -/
def Enclosable (words : List Lexeme) : Prop :=
  ∃ first second rest, words = first :: second :: rest ∧ first ≠ .rightParen ∧
    ∀ n, first = .name n → second ≠ .rightParen

theorem Enclosable.append {words : List Lexeme} (h : Enclosable words) (more : List Lexeme) :
    Enclosable (words ++ more) := by
  obtain ⟨first, second, rest, rfl, hfirst, hsecond⟩ := h
  exact ⟨first, second, rest ++ more, rfl, hfirst, hsecond⟩

/-- A word in front of them does not either, unless it closes. -/
theorem Enclosable.cons {words : List Lexeme} (h : Enclosable words) {l : Lexeme}
    (hclose : l ≠ .rightParen) : Enclosable (l :: words) := by
  obtain ⟨first, second, rest, rfl, hfirst, -⟩ := h
  exact ⟨l, first, second :: rest, rfl, hclose, fun _ _ => hfirst⟩

/-- A path with something behind it that is not a closing parenthesis. -/
theorem Path.enclosable (path : Path) {l : Lexeme} (rest : List Lexeme)
    (hl : l ≠ .rightParen) : Enclosable (path.lexemes ++ l :: rest) := by
  rcases path.lexemes_cases with ⟨n, h⟩ | ⟨n, h⟩
  · rw [h]
    cases htail : path.rest with
    | nil => exact ⟨.name n, l, rest, rfl, by simp, fun _ _ => hl⟩
    | cons hop more => exact ⟨.name n, .dot, _, rfl, by simp, fun _ _ => by simp⟩
  · rw [h]
    exact ⟨.leftParen, .name n, _, rfl, by simp, fun _ h => (nomatch h)⟩

/-- The words of a phrase can stand in parentheses, whatever follows them. -/
theorem Phrase.enclosable {c : Category} (p : Phrase c) : Enclosable p.lexemes := by
  induction p with
  | single kind p ih => exact ih
  | more kind before next ihb ihn => exact ihb.append _
  | not p ih => exact ih.cons (by simp)
  | group p ih => exact (ih.cons (by simp)).append _
  | comparison path op => exact path.enclosable _ (by simp)
  | anyRow path => exact path.enclosable _ (by simp)
  | rows path body ih =>
    rw [lexemes, List.append_assoc]
    exact path.enclosable _ (by simp)

/-- A group is not taken for the mark of an outer join. -/
theorem Enclosable.beginsOuter {words : List Lexeme} {tokens rest : List Token}
    (h : Enclosable words) (hbegins : Begins tokens words rest) (span : Span) :
    beginsOuter (⟨.leftParen, span⟩ :: tokens) = false := by
  obtain ⟨first, second, more, rfl, -, hsecond⟩ := h
  -- two words decide: the first is no name, or the second does not close the parenthesis
  obtain ⟨s₁, mid₁, rfl, hbegins₁⟩ := hbegins.uncons
  obtain ⟨s₂, mid₂, rfl, -⟩ := hbegins₁.uncons
  unfold Grammar.beginsOuter
  split
  · next heq =>
    simp only [List.cons.injEq, Token.mk.injEq] at heq
    obtain ⟨-, ⟨hname, -⟩, ⟨hclose, -⟩, -⟩ := heq
    exact (hsecond _ hname hclose).elim
  · rfl

/-! ## Readers that succeed -/

/-- The reader takes the tokens down to `rest` for this. -/
def Reads {α : Type} (rd : TokenReader (Except FilterError) α) (tokens : List Token) (a : α)
    (rest : List Token) : Prop :=
  ∃ hlt, rd tokens = .ok ⟨a, rest, hlt⟩

/-- A run ends where the sign of its junction does not stand. -/
theorem junctionFrom_stop {kind : Junction} {rd : TokenReader (Except FilterError) Filter}
    {input rest : List Token} {f : Filter} {hlt : rest.length < input.length}
    (h : Avoids (signOf kind) rest) :
    junctionFrom ⟨ctx.builder, text⟩ kind rd f rest hlt = .ok ⟨f, rest, hlt⟩ := by
  unfold junctionFrom
  cases rest with
  | nil => rfl
  | cons t rest =>
    have hsign : t.lexeme ≠ signOf kind := h t rfl
    simp only [if_neg hsign]
    rfl

/-- Where it does, the operand behind it is joined on, and the run goes on. -/
theorem junctionFrom_step {kind : Junction} {rd : TokenReader (Except FilterError) Filter}
    {input mid rest : List Token} {span : Span} {left right f : Filter}
    {hlt : (⟨signOf kind, span⟩ :: mid : List Token).length < input.length}
    (hright : Reads rd mid right rest) (hf : ctx.builder.join kind left right = .ok f) :
    ∃ hlt', junctionFrom ⟨ctx.builder, text⟩ kind rd left (⟨signOf kind, span⟩ :: mid) hlt =
      junctionFrom ⟨ctx.builder, text⟩ kind rd f rest hlt' := by
  obtain ⟨hshort, hread⟩ := hright
  refine ⟨Nat.lt_trans hshort (Nat.lt_trans (Nat.lt_succ_self _) hlt), ?_⟩
  rw [junctionFrom]
  simp only [if_true]
  rw [hread]
  show (ctx.builder.join kind left right >>= _) = _
  rw [hf]
  rfl

/-- The reader of the parts of a run. -/
def partReader (ctx : Context) (text : String) (room : Nat) (e : Entity) :
    Junction → TokenReader (Except FilterError) Filter
  | .and => operand ⟨ctx.builder, text⟩ room e
  | .or => junction ⟨ctx.builder, text⟩ .and (operand ⟨ctx.builder, text⟩ room e)

/-- Operands are read; of a run, at least this much is read, and reading goes on behind it. -/
def ReadsOn (ctx : Context) (text : String) (room : Nat) (e : Entity) :
    Category → List Token → Filter → List Token → Prop
  | .operand, tokens, f, rest => Reads (operand ⟨ctx.builder, text⟩ room e) tokens f rest
  | .run kind, tokens, f, rest =>
    ∃ hlt, junction ⟨ctx.builder, text⟩ kind (partReader ctx text room e kind) tokens =
      junctionFrom ⟨ctx.builder, text⟩ kind (partReader ctx text room e kind) f rest hlt

/-- A conjunction among alternatives is read to its end if no further operand follows. -/
theorem ReadsOn.part {kind : Junction} {tokens rest : List Token} {f : Filter}
    (h : ReadsOn ctx text room e (.part kind) tokens f rest)
    (hrest : kind = .or → Avoids .and rest) :
    Reads (partReader ctx text room e kind) tokens f rest := by
  cases kind with
  | and => exact h
  | or =>
    obtain ⟨hlt, h⟩ := h
    exact ⟨hlt, h.trans (junctionFrom_stop (hrest rfl))⟩

/-- Alternatives are read to their end if neither sign follows. -/
theorem ReadsOn.filter {tokens rest : List Token} {f : Filter}
    (h : ReadsOn ctx text room e .filter tokens f rest) (hrest : Avoids .or rest) :
    Reads (filterOf ⟨ctx.builder, text⟩ (operand ⟨ctx.builder, text⟩ room e)) tokens f rest := by
  obtain ⟨hlt, h⟩ := h
  exact ⟨hlt, h.trans (junctionFrom_stop hrest)⟩

/-! ## Operands -/

/-- An operand that begins with a path is a test of that path. -/
theorem operandOver_path_eq {deeper : Deeper (Except FilterError) Filter}
    {tokens mid : List Token} {path : Path} (hbegins : Begins tokens path.lexemes mid)
    (hmid : Avoids .dot mid) :
    ∃ (names : List Segment) (hlt : mid.length < tokens.length),
      names.map Segment.hop = path.names ∧
        operandOver ⟨ctx.builder, text⟩ deeper e tokens =
          test ⟨ctx.builder, text⟩ deeper e names mid >>= fun f => pure (f.ofLonger hlt) := by
  obtain ⟨names, hlt, hnames, hhops⟩ := @segments_complete text _ _ _ hbegins hmid
  have htested : tested ⟨ctx.builder, text⟩ deeper e tokens =
      test ⟨ctx.builder, text⟩ deeper e names mid >>= fun f => pure (f.ofLonger hlt) := by
    unfold tested
    rw [ofExcept_eq, hnames]
    rfl
  refine ⟨names, hlt, hhops, ?_⟩
  rw [← htested]
  -- both ways a path can begin make the operand a test
  rcases path.lexemes_cases with ⟨n, h⟩ | ⟨n, h⟩
  · rw [h] at hbegins
    obtain ⟨span, mid', rfl, -⟩ := hbegins.uncons
    rfl
  · rw [h] at hbegins
    obtain ⟨s₁, mid₁, rfl, hbegins₁⟩ := hbegins.uncons
    obtain ⟨s₂, mid₂, rfl, hbegins₂⟩ := hbegins₁.uncons
    obtain ⟨s₃, mid₃, rfl, -⟩ := hbegins₂.uncons
    rfl

/-- An operand that begins with a path is the test behind the path. -/
theorem operandOver_path {deeper : Deeper (Except FilterError) Filter}
    {tokens mid rest : List Token} {path : Path} {f : Filter}
    (hbegins : Begins tokens path.lexemes mid) (hmid : Avoids .dot mid)
    (htest : ∀ names : List Segment, names.map Segment.hop = path.names →
      Reads (test ⟨ctx.builder, text⟩ deeper e names) mid f rest) :
    Reads (operandOver ⟨ctx.builder, text⟩ deeper e) tokens f rest := by
  obtain ⟨names, hlt, hhops, heq⟩ := @operandOver_path_eq ctx text e deeper _ _ _ hbegins hmid
  obtain ⟨hlt', hread⟩ := htest names hhops
  refine ⟨Nat.lt_trans hlt' hlt, ?_⟩
  rw [heq, hread]
  rfl

/-- What is read up to a closing parenthesis is read in parentheses. -/
theorem enclosed_complete {inner : Entity → TokenReader (Except FilterError) Filter}
    {flaw : Flaw} {paren span : Span} {tokens rest : List Token} {f : Filter}
    (h : Reads (filterOf ⟨ctx.builder, text⟩ (inner e)) tokens f (⟨.rightParen, span⟩ :: rest)) :
    Reads (enclosed ⟨ctx.builder, text⟩ (some inner) e flaw paren) tokens f rest := by
  obtain ⟨hlt, h⟩ := h
  refine ⟨Nat.lt_trans (Nat.lt_succ_self _) hlt, ?_⟩
  unfold enclosed
  show (filterOf ⟨ctx.builder, text⟩ (inner e) tokens >>= _) = _
  rw [h]
  rfl

/-- Behind a sign the complement is read. -/
theorem operandOver_not {inner : Entity → TokenReader (Except FilterError) Filter} {span : Span}
    {tokens rest : List Token} {f : Filter} (h : Reads (inner e) tokens f rest) :
    Reads (operandOver ⟨ctx.builder, text⟩ (some inner) e) (⟨.not, span⟩ :: tokens)
      f.complement rest := by
  obtain ⟨hlt, h⟩ := h
  refine ⟨Nat.lt_trans hlt (Nat.lt_succ_self _), ?_⟩
  have hnegation : negation ⟨ctx.builder, text⟩ (some inner) e tokens =
      .ok ⟨f.complement, rest, hlt⟩ := by
    unfold negation
    show (inner e tokens >>= _) = _
    rw [h]
    rfl
  show (negation ⟨ctx.builder, text⟩ (some inner) e tokens >>= _) = _
  rw [hnegation]
  rfl

/-- Behind a parenthesis that marks no hop a group is read. -/
theorem operandOver_group {deeper : Deeper (Except FilterError) Filter} {span : Span}
    {tokens rest : List Token} {f : Filter}
    (houter : beginsOuter (⟨.leftParen, span⟩ :: tokens) = false)
    (h : Reads (enclosed ⟨ctx.builder, text⟩ deeper e .missingParenthesis span) tokens f rest) :
    Reads (operandOver ⟨ctx.builder, text⟩ deeper e) (⟨.leftParen, span⟩ :: tokens) f rest := by
  obtain ⟨hlt, h⟩ := h
  refine ⟨Nat.lt_trans hlt (Nat.lt_succ_self _), ?_⟩
  simp only [operandOver, houter, Bool.false_eq_true, if_false]
  rw [h]
  rfl

/-- The body of an existence test that does not close it is read as a filter. -/
theorem body_eq_enclosed {deeper : Deeper (Except FilterError) Filter} {target : Entity}
    {span : Span} {words : List Lexeme} {tokens mid : List Token} (hwords : Enclosable words)
    (hbegins : Begins tokens words mid) :
    body ⟨ctx.builder, text⟩ deeper target span tokens =
      enclosed ⟨ctx.builder, text⟩ deeper target .unterminatedExistence span tokens := by
  obtain ⟨first, second, more, rfl, hfirst, -⟩ := hwords
  -- the first word does not close the parenthesis, so the body is not empty
  obtain ⟨s, mid', rfl, -⟩ := hbegins.uncons
  simp only [body, if_neg hfirst]

/-- A body with words in it is read as a filter, one level deeper. -/
theorem body_complete {inner : Entity → TokenReader (Except FilterError) Filter}
    {target : Entity} {paren span : Span} {words : List Lexeme} {tokens rest : List Token}
    {f : Filter} (hwords : Enclosable words)
    (hbegins : Begins tokens words (⟨.rightParen, span⟩ :: rest))
    (h : Reads (filterOf ⟨ctx.builder, text⟩ (inner target)) tokens f
      (⟨.rightParen, span⟩ :: rest)) :
    Reads (body ⟨ctx.builder, text⟩ (some inner) target paren) tokens f rest := by
  have henclosed : Reads (enclosed ⟨ctx.builder, text⟩ (some inner) target .unterminatedExistence
      paren) tokens f rest := enclosed_complete h
  obtain ⟨hlt, henclosed⟩ := henclosed
  exact ⟨hlt, (body_eq_enclosed hwords hbegins).trans henclosed⟩

/-- A path with an operator and a sign behind it is read as a comparison. -/
theorem test_comparison {deeper : Deeper (Except FilterError) Filter} {names : List Segment}
    {resolved : Resolved} {op : RelOp} {s₁ s₂ : Span} {rest : List Token}
    (h : ctx.schema.resolve e names .comparison text = .ok resolved) :
    Reads (test ⟨ctx.builder, text⟩ deeper e names) (⟨.op op, s₁⟩ :: ⟨.param, s₂⟩ :: rest)
      (.compare ⟨e.name, ⟨resolved.chain, op⟩, .unbound⟩) rest := by
  refine ⟨Nat.lt_trans (Nat.lt_succ_self _) (Nat.lt_succ_self _), ?_⟩
  show ((MonadExcept.ofExcept (ctx.schema.resolve e names .comparison text) :
    Except FilterError Resolved) >>= _) = _
  rw [ofExcept_eq, h]
  rfl

/-- With the target known, the reader goes on to the body. -/
theorem test_existence_eq {deeper : Deeper (Except FilterError) Filter} {names : List Segment}
    {resolved : Resolved} {target : Entity} {span : Span} {tokens : List Token}
    (h : ctx.schema.resolve e names .existence text = .ok resolved)
    (htarget : resolved.target = some target) :
    test ⟨ctx.builder, text⟩ deeper e names (⟨.leftParen, span⟩ :: tokens) =
      body ⟨ctx.builder, text⟩ deeper target span tokens >>= fun sub =>
        ctx.builder.existence e.name resolved.chain false sub.value >>= fun f =>
          pure ((sub.ofLonger (Nat.lt_succ_self _)).map fun _ => f) := by
  show (MonadExcept.ofExcept (ctx.schema.resolve e names .existence text) >>= _) = _
  rw [ofExcept_eq, h]
  obtain ⟨chain, found⟩ := resolved
  obtain rfl : found = some target := htarget
  rfl

/-- A path with a body behind it is read as a test over the body. -/
theorem test_existence {deeper : Deeper (Except FilterError) Filter} {names : List Segment}
    {resolved : Resolved} {target : Entity} {span : Span} {tokens rest : List Token}
    {sub f : Filter} (h : ctx.schema.resolve e names .existence text = .ok resolved)
    (htarget : resolved.target = some target)
    (hsub : Reads (body ⟨ctx.builder, text⟩ deeper target span) tokens sub rest)
    (hf : ctx.builder.existence e.name resolved.chain false sub = .ok f) :
    Reads (test ⟨ctx.builder, text⟩ deeper e names) (⟨.leftParen, span⟩ :: tokens) f rest := by
  obtain ⟨hlt, hsub⟩ := hsub
  refine ⟨Nat.lt_trans hlt (Nat.lt_succ_self _), ?_⟩
  rw [test_existence_eq h htarget, hsub]
  show (ctx.builder.existence e.name resolved.chain false sub >>= _) = _
  rw [hf]
  rfl

/-! ## Phrases -/

namespace ReadsOn

theorem single {kind : Junction} {tokens rest : List Token} {f : Filter}
    (h : Reads (partReader ctx text room e kind) tokens f rest) :
    ReadsOn ctx text room e (.run kind) tokens f rest := by
  obtain ⟨hlt, h⟩ := h
  refine ⟨hlt, ?_⟩
  unfold junction
  rw [h]
  rfl

/-- Reading goes on over a sign and another part, if the two can be joined. -/
theorem more {kind : Junction} {span : Span} {tokens mid rest : List Token}
    {left right f : Filter}
    (hleft : ReadsOn ctx text room e (.run kind) tokens left (⟨signOf kind, span⟩ :: mid))
    (hright : Reads (partReader ctx text room e kind) mid right rest)
    (hf : ctx.builder.join kind left right = .ok f) :
    ReadsOn ctx text room e (.run kind) tokens f rest := by
  obtain ⟨hlt, hread⟩ := hleft
  obtain ⟨hlt', hstep⟩ := @junctionFrom_step ctx text kind _ _ _ _ _ _ _ _ hlt hright hf
  exact ⟨hlt', hread.trans hstep⟩

/-- What is read whether or not there is a level further in. -/
theorem ofOver {tokens rest : List Token} {f : Filter}
    (h : ∀ deeper, Reads (operandOver ⟨ctx.builder, text⟩ deeper e) tokens f rest) :
    ReadsOn ctx text room e .operand tokens f rest := by
  cases room <;> exact h _

end ReadsOn

/-- A phrase whose words begin the tokens is read, provided that a filter is not followed by the
sign of a conjunction: its last operands would be read on. -/
theorem Phrase.readsOn {c : Category} (p : Phrase c) {room : Nat} {e : Entity} {f : Filter}
    {tokens rest : List Token} (hbegins : Begins tokens p.lexemes rest)
    (hf : p.denote ctx.schema e = some f) (hnesting : p.nesting ≤ room)
    (hdepth : f.depth ≤ ctx.config.maxDepth) (hrest : c = .filter → Avoids .and rest) :
    ReadsOn ctx text room e c tokens f rest := by
  -- over the phrase: its words, its filter and its nesting are those of its parts put together
  induction p generalizing room e f tokens rest with
  | single kind p ih =>
    have hread := ih hbegins hf hnesting hdepth fun h => absurd h (Category.part_ne_filter kind)
    exact ReadsOn.single (hread.part fun hkind => hrest (by rw [hkind]))
  | more kind before next ihb ihn =>
    obtain ⟨left, right, hleft, hright, rfl⟩ := denote_more.1 hf
    obtain ⟨hlp, hle⟩ := before.denote_proper hleft
    have hrp := (next.denote_proper hright).1
    simp only [nesting, Nat.max_le] at hnesting
    have hdepths : max left.depth right.depth + 1 ≤ ctx.config.maxDepth := hdepth
    obtain ⟨mid, hbefore, hafter⟩ := hbegins.split
    -- behind the earlier alternatives stands their own sign, not that of a conjunction
    have hmid : Category.run kind = .filter → Avoids .and mid := by
      intro hkind
      obtain rfl := Category.run.inj hkind
      exact hafter.avoids (by simp [signOf])
    obtain ⟨span, mid, rfl, hnext⟩ := hafter.uncons
    have hreadl := ihb hbefore hleft hnesting.1 (by omega) hmid
    have hreadr := ihn hnext hright hnesting.2 (by omega)
      fun h => absurd h (Category.part_ne_filter kind)
    have hjoin : ctx.builder.join kind left right = .ok (.junction e.name kind left right) :=
      (join_eq_ok hlp hrp).2 ⟨by rw [hle], hdepth⟩
    exact hreadl.more (hreadr.part fun hkind => hrest (by rw [hkind])) hjoin
  | not p ih =>
    obtain ⟨g, hg, rfl⟩ := denote_not.1 hf
    rw [Filter.depth_complement] at hdepth
    obtain ⟨span, mid, rfl, hmid⟩ := hbegins.uncons
    -- a complement nests, so there is a level to enter, and the operand is read on it
    cases room with
    | zero => exact absurd hnesting (Nat.not_succ_le_zero _)
    | succ room =>
      have hread := ih hmid hg (Nat.le_of_succ_le_succ hnesting) hdepth
        fun h => absurd h Category.operand_ne_filter
      exact operandOver_not hread
  | group p ih =>
    obtain ⟨span, mid, rfl, hmid⟩ := hbegins.uncons
    obtain ⟨mid', hp, hclose⟩ := hmid.split
    obtain ⟨span', rfl⟩ := hclose.single
    cases room with
    | zero => exact absurd hnesting (Nat.not_succ_le_zero _)
    | succ room =>
      have hread := ih hp hf (Nat.le_of_succ_le_succ hnesting) hdepth
        fun _ => hclose.avoids (by simp)
      have hgroup := hread.filter (hclose.avoids (by simp))
      -- the group is not read as `(name)`, because its words are not a single name
      exact operandOver_group (p.enclosable.beginsOuter hp span) (enclosed_complete hgroup)
  | comparison path op =>
    obtain ⟨resolved, hresolved, rfl⟩ := denote_comparison.1 hf
    obtain ⟨mid, hpath, hmid⟩ := hbegins.split
    have hdot : Avoids .dot mid := hmid.avoids (by simp)
    obtain ⟨s₁, s₂, rfl⟩ := hmid.pair
    refine ReadsOn.ofOver fun deeper => operandOver_path hpath hdot fun names hnames => ?_
    exact test_comparison ((resolve_eq_ok hnames).2 hresolved)
  | anyRow path =>
    obtain ⟨resolved, target, hresolved, htarget, rfl⟩ := denote_anyRow.1 hf
    obtain ⟨mid, hpath, hmid⟩ := hbegins.split
    have hdot : Avoids .dot mid := hmid.avoids (by simp)
    obtain ⟨s₁, s₂, rfl⟩ := hmid.pair
    refine ReadsOn.ofOver fun deeper => operandOver_path hpath hdot fun names hnames => ?_
    have hbody : Reads (body ⟨ctx.builder, text⟩ deeper target s₁) (⟨.rightParen, s₂⟩ :: rest)
        (.opened target.name) rest := ⟨Nat.lt_succ_self _, rfl⟩
    have hexists := existence_eq_ok.2 ⟨rfl, rfl, hdepth⟩
    exact test_existence ((resolve_eq_ok hnames).2 hresolved) htarget hbody hexists
  | rows path p ih =>
    obtain ⟨resolved, target, sub, hresolved, htarget, hsub, rfl⟩ := denote_rows.1 hf
    have hdepths : sub.depth + 1 ≤ ctx.config.maxDepth := hdepth
    rw [lexemes, List.append_assoc] at hbegins
    obtain ⟨mid, hpath, hmid⟩ := hbegins.split
    have hdot : Avoids .dot mid := hmid.avoids (by simp)
    obtain ⟨s₁, mid, rfl, hrows⟩ := hmid.uncons
    obtain ⟨mid', hp, hclose⟩ := hrows.split
    obtain ⟨s₂, rfl⟩ := hclose.single
    -- the body is read over the target, one level further in
    cases room with
    | zero => exact absurd hnesting (Nat.not_succ_le_zero _)
    | succ room =>
      have hread := ih hp hsub (Nat.le_of_succ_le_succ hnesting) (by omega)
        fun _ => hclose.avoids (by simp)
      refine operandOver_path hpath hdot fun names hnames => ?_
      have hbody : Reads (body ⟨ctx.builder, text⟩ (some (operand ⟨ctx.builder, text⟩ room))
          target s₁) mid sub rest :=
        body_complete p.enclosable hp (hread.filter (hclose.avoids (by simp)))
      have hexists := existence_eq_ok.2 ⟨(p.denote_proper hsub).1.2, rfl, hdepth⟩
      exact test_existence ((resolve_eq_ok hnames).2 hresolved) htarget hbody hexists

/-! ## Whole texts -/

/-- A text that is spelled is read. -/
theorem wholeFilter_complete {tokens : List Token} {f : Filter}
    (h : Spells ctx ctx.config.maxDepth .filter e (tokens.map Token.lexeme) f) :
    wholeFilter ⟨ctx.builder, text⟩ e tokens = .ok f := by
  obtain ⟨p, hwords, hf, hnesting, hdepth⟩ := h
  have hnone : ∀ l, Avoids l [] := fun l t ht => (nomatch ht)
  have hread : ReadsOn ctx text ctx.config.maxDepth e .filter tokens f [] :=
    p.readsOn (Begins.all_iff.2 hwords.symm) hf hnesting hdepth fun _ => hnone _
  obtain ⟨hlt, h⟩ := hread.filter (hnone _)
  unfold wholeFilter
  show (filterOf ⟨ctx.builder, text⟩ (operand ⟨ctx.builder, text⟩ ctx.config.maxDepth e) tokens
    >>= _) = _
  rw [h]
  rfl

/-- The reader gives a filter exactly if the words of the text spell it. -/
theorem wholeFilter_eq_ok {tokens : List Token} {f : Filter} :
    wholeFilter ⟨ctx.builder, text⟩ e tokens = .ok f ↔
      Spells ctx ctx.config.maxDepth .filter e (tokens.map Token.lexeme) f :=
  ⟨wholeFilter_sound, wholeFilter_complete⟩

end RowFilter.Grammar
