import RowFilter.Proofs.RoundTrip

/-!
# Written filters that nest too far

One limit serves for the depth of filters and for the nesting of texts, but they are not the same
number. A level of the filter can take two in its text: an existence test that is negated has its
sign, which is no level of the filter, around its body. So a filter within the limit may have a
text beyond it, and the reader then says that it is too deep. It has nothing else to say of words
that denote a filter: they are read as this filter, or one of the two numbers is too large. In the
text that is written for a filter only the signs make the difference: a group there always stands
around a junction, which is a level of its own.
-/

namespace RowFilter

open RowFilter.Grammar

variable {ctx : Context} {text : String} {e : Entity} {room : Nat}

namespace Grammar

/-! ## Readers that run out of levels -/

/-- Reading as this category ends with the error that no further level may be entered. -/
def RunsOut (ctx : Context) (text : String) (room : Nat) (e : Entity) :
    Category → List Token → Prop
  | .operand, tokens =>
    operand ⟨ctx.builder, text⟩ room e tokens = .error (.tooDeep ctx.config.maxDepth)
  | .run kind, tokens =>
    junction ⟨ctx.builder, text⟩ kind (partReader ctx text room e kind) tokens =
      .error (.tooDeep ctx.config.maxDepth)

theorem RunsOut.part {kind : Junction} {tokens : List Token}
    (h : RunsOut ctx text room e (.part kind) tokens) :
    partReader ctx text room e kind tokens = .error (.tooDeep ctx.config.maxDepth) := by
  cases kind <;> exact h

/-- Operands are read over the readers one level further in, which have one level less, if there
is any level left. -/
theorem RunsOut.ofOver {tokens : List Token}
    (h : ∀ deeper, (∀ inner, deeper = some inner →
        ∃ less, room = less + 1 ∧ inner = operand ⟨ctx.builder, text⟩ less) →
      operandOver ⟨ctx.builder, text⟩ deeper e tokens = .error (.tooDeep ctx.config.maxDepth)) :
    RunsOut ctx text room e .operand tokens := by
  cases room with
  | zero => exact h none fun _ hinner => (nomatch hinner)
  | succ room => exact h _ fun _ hinner => ⟨room, rfl, (Option.some.inj hinner).symm⟩

variable {deeper : Deeper (Except FilterError) Filter}

/-- A level that cannot be entered, or in which a further one cannot. -/
theorem enter_bind {α β : Type} {x : (Entity → TokenReader (Except FilterError) Filter) →
      Except FilterError α}
    (h : ∀ inner, deeper = some inner → x inner = .error (.tooDeep ctx.config.maxDepth))
    (k : α → Except FilterError β) :
    (enter ⟨ctx.builder, text⟩ deeper >>= fun inner => x inner >>= k) =
      .error (.tooDeep ctx.config.maxDepth) := by
  cases deeper with
  | none => rfl
  | some inner =>
    show (x inner >>= k) = _
    rw [h inner rfl]
    rfl

/-- A reader of parentheses runs out with the filter in them. -/
theorem enclosed_runsOut {flaw : Flaw} {paren : Span} {tokens : List Token}
    (h : ∀ inner, deeper = some inner → filterOf ⟨ctx.builder, text⟩ (inner e) tokens =
      .error (.tooDeep ctx.config.maxDepth)) :
    enclosed ⟨ctx.builder, text⟩ deeper e flaw paren tokens =
      .error (.tooDeep ctx.config.maxDepth) :=
  enter_bind h _

theorem operandOver_not_runsOut {span : Span} {tokens : List Token}
    (h : ∀ inner, deeper = some inner → inner e tokens = .error (.tooDeep ctx.config.maxDepth)) :
    operandOver ⟨ctx.builder, text⟩ deeper e (⟨.not, span⟩ :: tokens) =
      .error (.tooDeep ctx.config.maxDepth) := by
  have hnegation : negation ⟨ctx.builder, text⟩ deeper e tokens =
      .error (.tooDeep ctx.config.maxDepth) := enter_bind h _
  show (negation ⟨ctx.builder, text⟩ deeper e tokens >>= _) = _
  rw [hnegation]
  rfl

theorem operandOver_group_runsOut {span : Span} {tokens : List Token}
    (houter : beginsOuter (⟨.leftParen, span⟩ :: tokens) = false)
    (h : ∀ inner, deeper = some inner → filterOf ⟨ctx.builder, text⟩ (inner e) tokens =
      .error (.tooDeep ctx.config.maxDepth)) :
    operandOver ⟨ctx.builder, text⟩ deeper e (⟨.leftParen, span⟩ :: tokens) =
      .error (.tooDeep ctx.config.maxDepth) := by
  simp only [operandOver, houter, Bool.false_eq_true, if_false]
  rw [enclosed_runsOut h]
  rfl

/-- An existence test runs out with its body. -/
theorem operandOver_rows_runsOut {path : Path} {p : Phrase .filter} {resolved : Resolved}
    {target : Entity} {tokens rest : List Token}
    (hbegins : Begins tokens (Phrase.rows path p).lexemes rest)
    (hresolved : path.resolve? ctx.schema e .existence = some resolved)
    (htarget : resolved.target = some target)
    (h : ∀ inner, deeper = some inner → ∀ tokens rest, Begins tokens p.lexemes rest →
      Avoids .and rest → filterOf ⟨ctx.builder, text⟩ (inner target) tokens =
        .error (.tooDeep ctx.config.maxDepth)) :
    operandOver ⟨ctx.builder, text⟩ deeper e tokens = .error (.tooDeep ctx.config.maxDepth) := by
  rw [Phrase.lexemes, List.append_assoc] at hbegins
  obtain ⟨mid, hpath, hmid⟩ := hbegins.split
  have hdot : Avoids .dot mid := hmid.avoids (by simp)
  obtain ⟨span, mid, rfl, hrows⟩ := hmid.uncons
  obtain ⟨mid', hp, hclose⟩ := hrows.split
  obtain ⟨names, hlt, hnames, heq⟩ := @operandOver_path_eq ctx text e deeper _ _ _ hpath hdot
  have hbody : body ⟨ctx.builder, text⟩ deeper target span mid =
      .error (.tooDeep ctx.config.maxDepth) := by
    rw [body_eq_enclosed p.enclosable hp]
    exact enclosed_runsOut fun inner hinner => h inner hinner _ _ hp (hclose.avoids (by simp))
  rw [heq, test_existence_eq ((resolve_eq_ok hnames).2 hresolved) htarget, hbody]
  rfl

/-- Reading a run ends where a part of it runs out, after the parts in front were read. -/
theorem RunsOut.more {kind : Junction} {span : Span} {tokens mid : List Token} {left : Filter}
    (hleft : ReadsOn ctx text room e (.run kind) tokens left (⟨signOf kind, span⟩ :: mid))
    (hright : RunsOut ctx text room e (.part kind) mid) :
    RunsOut ctx text room e (.run kind) tokens := by
  obtain ⟨hlt, hread⟩ := hleft
  refine hread.trans ?_
  rw [junctionFrom]
  simp only [if_true]
  rw [hright.part]
  rfl

/-! ## Filters that grow too deep -/

/-- Reading a run ends where the junction of what was read would be too deep. -/
theorem RunsOut.join {kind : Junction} {span : Span} {tokens mid rest : List Token}
    {left right : Filter}
    (hleft : ReadsOn ctx text room e (.run kind) tokens left (⟨signOf kind, span⟩ :: mid))
    (hright : Reads (partReader ctx text room e kind) mid right rest)
    (hjoin : ctx.builder.join kind left right = .error (.tooDeep ctx.config.maxDepth)) :
    RunsOut ctx text room e (.run kind) tokens := by
  obtain ⟨hlt, hread⟩ := hleft
  obtain ⟨hlt', hpart⟩ := hright
  refine hread.trans ?_
  rw [junctionFrom]
  simp only [if_true]
  rw [hpart]
  show (ctx.builder.join kind left right >>= _) = _
  rw [hjoin]
  rfl

/-- An existence test over a body that was read is refused if it is too deep. -/
theorem operandOver_existence_tooDeep {path : Path} {resolved : Resolved} {target : Entity}
    {span : Span} {tokens mid rest : List Token} {sub : Filter}
    (hpath : Begins tokens path.lexemes (⟨.leftParen, span⟩ :: mid))
    (hresolved : path.resolve? ctx.schema e .existence = some resolved)
    (htarget : resolved.target = some target)
    (hbody : Reads (body ⟨ctx.builder, text⟩ deeper target span) mid sub rest)
    (hclosed : sub.isClosed = false) (hdeep : ctx.config.maxDepth < sub.depth + 1) :
    operandOver ⟨ctx.builder, text⟩ deeper e tokens = .error (.tooDeep ctx.config.maxDepth) := by
  have hdot : Avoids .dot (⟨.leftParen, span⟩ :: mid) := by simp [Avoids]
  obtain ⟨names, hlt, hnames, heq⟩ := @operandOver_path_eq ctx text e deeper _ _ _ hpath hdot
  obtain ⟨hlt', hbody⟩ := hbody
  have hexists : ctx.builder.existence e.name resolved.chain false sub =
      .error (.tooDeep ctx.config.maxDepth) :=
    (Context.existence_eq hclosed).trans (Context.withinDepth_of_lt hdeep)
  rw [heq, test_existence_eq ((resolve_eq_ok hnames).2 hresolved) htarget, hbody]
  show ((ctx.builder.existence e.name resolved.chain false sub >>= _) >>= _) = _
  rw [hexists]
  rfl

/-- A test for the rows of a filter is refused if it is too deep, though the filter is not. -/
theorem operandOver_rows_tooDeep {path : Path} {p : Phrase .filter} {resolved : Resolved}
    {target : Entity} {tokens rest : List Token} {sub : Filter}
    (hbegins : Begins tokens (Phrase.rows path p).lexemes rest)
    (hresolved : path.resolve? ctx.schema e .existence = some resolved)
    (htarget : resolved.target = some target) (hsub : p.denote ctx.schema target = some sub)
    (hnesting : p.nesting ≤ room) (hdepth : sub.depth ≤ ctx.config.maxDepth)
    (hdeep : ctx.config.maxDepth < sub.depth + 1) :
    operandOver ⟨ctx.builder, text⟩ (some (operand ⟨ctx.builder, text⟩ room)) e tokens =
      .error (.tooDeep ctx.config.maxDepth) := by
  rw [Phrase.lexemes, List.append_assoc] at hbegins
  obtain ⟨mid, hpath, hmid⟩ := hbegins.split
  obtain ⟨s₁, mid, rfl, hrows⟩ := hmid.uncons
  obtain ⟨mid', hp, hclose⟩ := hrows.split
  obtain ⟨s₂, rfl⟩ := hclose.single
  have hread : ReadsOn ctx text room target .filter mid sub (⟨.rightParen, s₂⟩ :: rest) :=
    p.readsOn hp hsub hnesting hdepth fun _ => hclose.avoids (by simp)
  have hbody : Reads (body ⟨ctx.builder, text⟩ (some (operand ⟨ctx.builder, text⟩ room))
      target s₁) mid sub rest :=
    body_complete p.enclosable hp (hread.filter (hclose.avoids (by simp)))
  exact operandOver_existence_tooDeep hpath hresolved htarget hbody
    (p.denote_proper hsub).1.2 hdeep

/-! ## Phrases beyond the limit -/

/-- A phrase that nests further than there is room, or denotes a filter beyond the limit, makes the
reader run out: nothing in front of the place where it does is a mistake. -/
theorem Phrase.runsOut {c : Category} (p : Phrase c) {room : Nat} {e : Entity} {f : Filter}
    {tokens rest : List Token} (hbegins : Begins tokens p.lexemes rest)
    (hf : p.denote ctx.schema e = some f)
    (hlimit : room < p.nesting ∨ ctx.config.maxDepth < f.depth)
    (hrest : c = .filter → Avoids .and rest) : RunsOut ctx text room e c tokens := by
  -- over the phrase, with the number of levels left: it runs out in the first part that does, or
  -- where the parts are put together
  induction p generalizing room e f tokens rest with
  | single kind p ih =>
    have hout := (ih hbegins hf hlimit fun h => absurd h (Category.part_ne_filter kind)).part
    show (partReader ctx text room e kind tokens >>= _) = _
    rw [hout]
    rfl
  | more kind before next ihb ihn =>
    obtain ⟨left, right, hleft, hright, rfl⟩ := denote_more.1 hf
    obtain ⟨hlp, hle⟩ := before.denote_proper hleft
    have hrp := (next.denote_proper hright).1
    obtain ⟨mid, hbefore, hafter⟩ := hbegins.split
    have hmid : Category.run kind = .filter → Avoids .and mid := by
      intro hkind
      obtain rfl := Category.run.inj hkind
      exact hafter.avoids (by simp [signOf])
    by_cases hfront : room < before.nesting ∨ ctx.config.maxDepth < left.depth
    · exact ihb hbefore hleft hfront hmid
    rw [not_or, Nat.not_lt, Nat.not_lt] at hfront
    obtain ⟨span, mid, rfl, hnext⟩ := hafter.uncons
    have hread : ReadsOn ctx text room e (.run kind) tokens left (⟨signOf kind, span⟩ :: mid) :=
      before.readsOn hbefore hleft hfront.1 hfront.2 hmid
    have hpart : Category.part kind = .filter → Avoids .and rest :=
      fun h => absurd h (Category.part_ne_filter kind)
    by_cases hback : room < next.nesting ∨ ctx.config.maxDepth < right.depth
    · exact .more hread (ihn hnext hright hback hpart)
    rw [not_or, Nat.not_lt, Nat.not_lt] at hback
    have hreadr : ReadsOn ctx text room e (.part kind) mid right rest :=
      next.readsOn hnext hright hback.1 hback.2 hpart
    have hdeep : ctx.config.maxDepth < (Filter.junction left.entity kind left right).depth := by
      rw [nesting] at hlimit
      exact hlimit.resolve_left (by omega)
    exact .join hread (hreadr.part fun hkind => hrest (by rw [hkind]))
      ((Context.join_eq hlp hrp).trans (Context.withinDepth_of_lt hdeep))
  | not p ih =>
    obtain ⟨g, hg, rfl⟩ := denote_not.1 hf
    rw [Filter.depth_complement] at hlimit
    obtain ⟨span, mid, rfl, hmid⟩ := hbegins.uncons
    refine RunsOut.ofOver fun deeper hdeeper => ?_
    refine operandOver_not_runsOut fun inner hinner => ?_
    obtain ⟨less, rfl, rfl⟩ := hdeeper inner hinner
    exact ih hmid hg (hlimit.imp_left Nat.lt_of_succ_lt_succ)
      fun h => absurd h Category.operand_ne_filter
  | group p ih =>
    obtain ⟨span, mid, rfl, hmid⟩ := hbegins.uncons
    obtain ⟨mid', hp, hclose⟩ := hmid.split
    refine RunsOut.ofOver fun deeper hdeeper => ?_
    refine operandOver_group_runsOut (p.enclosable.beginsOuter hp span) fun inner hinner => ?_
    obtain ⟨less, rfl, rfl⟩ := hdeeper inner hinner
    exact ih hp hf (hlimit.imp_left Nat.lt_of_succ_lt_succ) fun _ => hclose.avoids (by simp)
  | comparison path op =>
    obtain ⟨resolved, -, rfl⟩ := denote_comparison.1 hf
    have hpos : 1 ≤ ctx.config.maxDepth := ctx.config.maxDepth_pos
    exact absurd hlimit (not_or.2 ⟨Nat.not_lt_zero room, Nat.not_lt.2 hpos⟩)
  | anyRow path =>
    obtain ⟨resolved, target, hresolved, htarget, rfl⟩ := denote_anyRow.1 hf
    obtain ⟨mid, hpath, hmid⟩ := hbegins.split
    obtain ⟨s₁, s₂, rfl⟩ := hmid.pair
    refine RunsOut.ofOver fun deeper _ => ?_
    have hbody : Reads (body ⟨ctx.builder, text⟩ deeper target s₁) (⟨.rightParen, s₂⟩ :: rest)
        (.opened target.name) rest := ⟨Nat.lt_succ_self _, rfl⟩
    exact operandOver_existence_tooDeep hpath hresolved htarget hbody rfl
      (hlimit.resolve_left (Nat.not_lt_zero room))
  | rows path p ih =>
    obtain ⟨resolved, target, sub, hresolved, htarget, hsub, rfl⟩ := denote_rows.1 hf
    refine RunsOut.ofOver fun deeper hdeeper => ?_
    by_cases hinner : ∀ inner, deeper = some inner → ∀ less, room = less + 1 →
        less < p.nesting ∨ ctx.config.maxDepth < sub.depth
    · refine operandOver_rows_runsOut hbegins hresolved htarget
        fun inner heq tokens rest hp hand => ?_
      obtain ⟨less, rfl, rfl⟩ := hdeeper inner heq
      exact ih hp hsub (hinner _ heq less rfl) fun _ => hand
    · -- the body is read, and the test over it is one level deeper
      push Not at hinner
      obtain ⟨inner, rfl, less, rfl, hnesting, hdepth⟩ := hinner
      obtain ⟨less', hless, rfl⟩ := hdeeper inner rfl
      obtain rfl : less = less' := Nat.succ.inj hless
      have hdeep : ctx.config.maxDepth < sub.depth + 1 :=
        hlimit.resolve_left (by rw [nesting]; omega)
      exact operandOver_rows_tooDeep hbegins hresolved htarget hsub hnesting hdepth hdeep

/-- A whole text that nests too far, or denotes a filter that is too deep, is refused as too
deep. -/
theorem wholeFilter_runsOut {tokens : List Token} {p : Phrase .filter} {f : Filter}
    (hwords : p.lexemes = tokens.map Token.lexeme) (hf : p.denote ctx.schema e = some f)
    (hlimit : ctx.config.maxDepth < p.nesting ∨ ctx.config.maxDepth < f.depth) :
    wholeFilter ⟨ctx.builder, text⟩ e tokens = .error (.tooDeep ctx.config.maxDepth) := by
  have hnone : ∀ l, Avoids l [] := fun l t ht => (nomatch ht)
  have hout : filterOf ⟨ctx.builder, text⟩ (operand ⟨ctx.builder, text⟩ ctx.config.maxDepth e)
      tokens = .error (.tooDeep ctx.config.maxDepth) :=
    p.runsOut (Begins.all_iff.2 hwords.symm) hf hlimit fun _ => hnone _
  unfold wholeFilter
  show (filterOf ⟨ctx.builder, text⟩ (operand ⟨ctx.builder, text⟩ ctx.config.maxDepth e) tokens
    >>= _) = _
  rw [hout]
  rfl

/-- Words that denote a filter are read as this filter or refused as too deep: nothing else can be
wrong with them. -/
theorem wholeFilter_of_phrase {tokens : List Token} {p : Phrase .filter} {f : Filter}
    (hwords : p.lexemes = tokens.map Token.lexeme) (hf : p.denote ctx.schema e = some f) :
    wholeFilter ⟨ctx.builder, text⟩ e tokens =
      if p.nesting ≤ ctx.config.maxDepth ∧ f.depth ≤ ctx.config.maxDepth then .ok f
      else .error (.tooDeep ctx.config.maxDepth) := by
  split
  · next hwithin => exact wholeFilter_complete ⟨p, hwords, hf, hwithin⟩
  · next hbeyond =>
    rw [not_and_or, Nat.not_le, Nat.not_le] at hbeyond
    exact wholeFilter_runsOut hwords hf hbeyond

end Grammar

/-! ## Nesting and depth -/

namespace Filter

/-- The greatest number of negated existence tests that enclose one another. -/
def signs : Filter → Nat
  | existence _ _ negated sub => sub.signs + negated.toNat
  | junction _ _ left right => max left.signs right.signs
  | _ => 0

/-- What the nesting of the text is more than the levels below the top, the signs make up. -/
theorem textNesting_lt (f : Filter) : f.textNesting < f.depth + f.signs := by
  induction f with
  | opened | closed | compare => exact Nat.one_pos
  | existence e c negated sub ih =>
    have hpos := sub.depth_pos
    rw [textNesting, depth, signs]
    split <;> omega
  | junction e kind left right ihl ihr =>
    -- parentheses add one, and so does the junction that they stand in
    have hl := Bool.toNat_le (decide (left.precedence < (junction e kind left right).precedence))
    have hr := Bool.toNat_le (decide (right.precedence ≤ (junction e kind left right).precedence))
    rw [textNesting, depth, signs]
    omega

end Filter

/-! ## Parsing what was written -/

namespace Context

variable {f : Filter}

/-- The text of a filter that can be spelled is too deep if it nests too far. -/
theorem parse_render_tooDeep (hnames : ctx.schema.WellNamed) (hfits : f.Fits ctx f.entity)
    (hdeclared : f.DeclaredIn ctx.schema) (hlegible : f.Legible) (hproper : f.Proper)
    (hparametric : f.Parametric) (hnesting : ctx.config.maxDepth < f.textNesting) :
    ctx.parse f.entity f.render = .error (.tooDeep ctx.config.maxDepth) := by
  obtain ⟨e, p, he, hwords, hdenote, hsame⟩ :=
    exists_phrase_render hnames hfits hdeclared hlegible hproper hparametric
  obtain ⟨tokens, hscan, htokens⟩ := scan_eq_ok_iff.2 hwords
  rw [parse_eq he, hscan]
  exact wholeFilter_runsOut htokens.symm hdenote (.inl (hsame ▸ hnesting))

/-- A text that is refused as too deep was scanned, so all names in it are words. -/
theorem legible_of_parse_render_tooDeep {limit : Nat} (hnames : ctx.schema.WellNamed)
    (hdeclared : f.DeclaredIn ctx.schema)
    (h : ctx.parse f.entity f.render = .error (.tooDeep limit)) : f.Legible := by
  obtain ⟨e, he, -⟩ := entity_of_knows hdeclared.knows
  rw [parse_eq he] at h
  cases hscan : scan f.render with
  | error err =>
    rw [hscan] at h
    obtain rfl : err = .tooDeep limit := Except.error.inj h
    exact absurd hscan scanFrom_ne_tooDeep
  | ok tokens =>
    have hwords := scan_words f.render
    rw [hscan, (Filter.scans_render hnames hdeclared).wordsFrom_eq] at hwords
    exact Filter.legible_of_words hwords.symm

end Context

namespace Pool

variable {pool : Pool} {held : List Instance}

/-- The text of an instance that is neither open nor closed and has no constants is refused as too
deep only if it nests further than filters may be deep. Where all its property names are words for
the scan, it is refused so exactly then, and parsed otherwise. It nests less than the depth and the
signs taken together, so nothing is refused in which no negated existence test stands in another. -/
theorem Reached.parse_render_limit (h : Reached ctx pool held) (hnames : ctx.schema.WellNamed)
    {i : Instance} (hi : i ∈ held) (hproper : i.filter.Proper)
    (hparametric : i.filter.Parametric) :
    (∀ limit, ((serve ctx (.parse i.node.entity i.filter.render)).run pool).1 =
        .error (.tooDeep limit) →
          limit = ctx.config.maxDepth ∧ ctx.config.maxDepth < i.filter.textNesting) ∧
      (i.filter.Legible →
        (((serve ctx (.parse i.node.entity i.filter.render)).run pool).1 =
            .error (.tooDeep ctx.config.maxDepth) ↔
          ctx.config.maxDepth < i.filter.textNesting) ∧
        (i.filter.textNesting ≤ ctx.config.maxDepth ↔
          ∃ g, ((serve ctx (.parse i.node.entity i.filter.render)).run pool).1 = .ok [g])) ∧
      i.filter.textNesting < i.depth + i.filter.signs ∧
      (i.filter.signs ≤ 1 → i.filter.textNesting ≤ ctx.config.maxDepth ∧
        ∀ limit, ((serve ctx (.parse i.node.entity i.filter.render)).run pool).1 ≠
          .error (.tooDeep limit)) := by
  obtain ⟨hfits, hdeclared⟩ := h.kept (declared_kept ctx) i hi
  have hdepth : i.depth = i.filter.depth := h.sound.1.depth_eq (h.sound.2 i hi)
  have hbound := i.filter.textNesting_lt
  have hlevels := hfits.depth
  rw [entity_node]
  have hok (hlegible : i.filter.Legible) (hle : i.filter.textNesting ≤ ctx.config.maxDepth) :
      ∃ g, ((serve ctx (.parse i.filter.entity i.filter.render)).run pool).1 = .ok [g] := by
    obtain ⟨g, pool', hrun, -⟩ := h.parse_ok
      (ctx.parse_render_ok hnames hfits hdeclared hlegible hproper hparametric hle)
    rw [hrun]
    exact ⟨g, rfl⟩
  have herror (hlegible : i.filter.Legible)
      (hlt : ctx.config.maxDepth < i.filter.textNesting) :
      ((serve ctx (.parse i.filter.entity i.filter.render)).run pool).1 =
        .error (.tooDeep ctx.config.maxDepth) :=
    h.parse_error_iff.2
      (ctx.parse_render_tooDeep hnames hfits hdeclared hlegible hproper hparametric hlt)
  have honly (limit : Nat)
      (hrun : ((serve ctx (.parse i.filter.entity i.filter.render)).run pool).1 =
        .error (.tooDeep limit)) :
      limit = ctx.config.maxDepth ∧ ctx.config.maxDepth < i.filter.textNesting := by
    have hlegible : i.filter.Legible :=
      ctx.legible_of_parse_render_tooDeep hnames hdeclared (h.parse_error_iff.1 hrun)
    by_cases hle : i.filter.textNesting ≤ ctx.config.maxDepth
    · obtain ⟨g, hg⟩ := hok hlegible hle
      rw [hg] at hrun
      cases hrun
    · have hlt := Nat.not_le.1 hle
      rw [herror hlegible hlt] at hrun
      cases hrun
      exact ⟨rfl, hlt⟩
  refine ⟨honly, fun hlegible => ⟨⟨fun hrun => (honly _ hrun).2, herror hlegible⟩,
    hok hlegible, ?parsed⟩, hdepth ▸ hbound, fun hsigns => ⟨by omega, fun limit hrun => ?few⟩⟩
  case parsed =>
    rintro ⟨g, hrun⟩
    by_contra hle
    rw [herror hlegible (Nat.not_le.1 hle)] at hrun
    cases hrun
  case few =>
    obtain ⟨-, hlt⟩ := honly limit hrun
    omega

/-! ### Signs in signs -/

namespace Sample

/-- The lines of orders without a line that meets the filter. -/
def withoutSibling (sub : Filter) : Filter :=
  .existence "line" ⟨[⟨⟨⟨"order", .relation "order" .toOne, false⟩, "line"⟩, false⟩],
    ⟨⟨⟨"lines", .relation "line" .toMany, false⟩, "order"⟩, false⟩⟩ true sub

/-- The comparison of the amount of a line with a parameter. -/
def lineAmount : Filter :=
  .compare ⟨"line", ⟨⟨[], ⟨⟨⟨"amount", .scalar .int, true⟩, "line"⟩, false⟩⟩, .eq⟩, .unbound⟩

/-- Orders and their lines where filters have three levels at most. -/
def threeLevels : Context :=
  { context with config := { context.config with maxDepth := 3, maxDepth_pos := Nat.succ_pos 2 } }

theorem parse_render_limit_withoutSibling :
    ∃ pool i g, Reached threeLevels pool [i] ∧ i.filter = withoutSibling lineAmount ∧
      i.filter.textNesting = 2 ∧ i.filter.signs = 1 ∧
      ((serve threeLevels (.parse i.node.entity i.filter.render)).run pool).1 = .ok [g] := by
  obtain ⟨pool, i, hreached, hfilter⟩ :=
    @Reached.exists_of_rebuild threeLevels (withoutSibling lineAmount) (by decide +kernel)
  have hlegible : threeLevels.schema.Legible := by decide +kernel
  obtain ⟨-, hread, -, hsigns⟩ := Reached.parse_render_limit hreached hlegible.wellNamed
    (List.mem_singleton_self i) (hfilter ▸ ⟨rfl, rfl⟩) (hfilter ▸ by decide +kernel)
  have hone : i.filter.signs = 1 := hfilter ▸ rfl
  obtain ⟨-, hparsed⟩ := hread (hfilter ▸ by decide +kernel)
  obtain ⟨g, hrun⟩ := hparsed.1 (hsigns hone.le).1
  exact ⟨pool, i, g, hreached, hfilter, hfilter ▸ rfl, hone, hrun⟩

/-- A filter of three levels whose text has four enclosing one another, where three are allowed of
either. -/
theorem parse_render_withoutSiblings :
    ∃ pool i, Reached threeLevels pool [i] ∧ threeLevels.schema.Legible ∧
      i.filter = withoutSibling (withoutSibling lineAmount) ∧ i.filter.Proper ∧
      i.filter.Parametric ∧ i.filter.depth = 3 ∧
      ((serve threeLevels (.parse i.node.entity i.filter.render)).run pool).1 =
        .error (.tooDeep 3) := by
  obtain ⟨pool, i, hreached, hfilter⟩ := @Reached.exists_of_rebuild threeLevels
    (withoutSibling (withoutSibling lineAmount)) (by decide +kernel)
  have hlegible : threeLevels.schema.Legible := by decide +kernel
  have hproper : i.filter.Proper := hfilter ▸ ⟨rfl, rfl⟩
  have hparametric : i.filter.Parametric := hfilter ▸ by decide +kernel
  have hnesting : threeLevels.config.maxDepth < i.filter.textNesting :=
    hfilter ▸ by decide +kernel
  obtain ⟨hfits, hdeclared⟩ :=
    hreached.kept (declared_kept threeLevels) i (List.mem_singleton_self i)
  refine ⟨pool, i, hreached, hlegible, hfilter, hproper, hparametric, hfilter ▸ rfl, ?_⟩
  rw [entity_node]
  exact hreached.parse_error_iff.2 (threeLevels.parse_render_tooDeep hlegible.wellNamed hfits
    hdeclared (hdeclared.legible hlegible) hproper hparametric hnesting)

end Sample

end Pool

end RowFilter
