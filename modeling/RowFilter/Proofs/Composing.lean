import RowFilter.Proofs.Blanks
import RowFilter.Proofs.TextNesting

/-!
# Texts made of texts

What is built step by step can be written step by step: a path, an operator and a question mark for
a comparison, texts in parentheses for junctions, complements and existence tests. Both ways lead to
the same instance. A text in parentheses is read as it is read on its own, whatever it is, since it
is never a single name, which would mark an outer join; and nothing can go wrong but that the texts
nest too far, because signs and parentheses count for texts and not for filters.
-/

namespace RowFilter

open RowFilter.Grammar RowFilter.Text

/-! ## Texts -/

/-- The path compared with a parameter. -/
def textOfComparison (path : String) (op : RelOp) : String :=
  path ++ " " ++ op.symbol ++ " ?"

/-- Both texts in parentheses, with the sign of the junction between them. -/
def textOfJunction (kind : Junction) (text text' : String) : String :=
  "(" ++ text ++ ") " ++ kind.symbol ++ " (" ++ text' ++ ")"

/-- The text in parentheses, behind the sign of the complement. -/
def textOfComplement (text : String) : String :=
  "!(" ++ text ++ ")"

/-- The path with the text in parentheses, behind the sign of the complement if need be. -/
def textOfRows (path text : String) (negated : Bool) : String :=
  (if negated then "!" else "") ++ path ++ "(" ++ text ++ ")"

namespace Grammar

variable {text text' path : String} {ws ws' : List Lexeme}

theorem Scans.inParens {chars : List Char} (h : Scans chars (some ws)) :
    Scans ('(' :: (chars ++ [')'])) (some (.leftParen :: ws ++ [.rightParen])) := by
  simpa using (h.append .closing (ends_rightParen _)).leftParen

/-- The text of a comparison has the words of its path, and two more. -/
theorem wordsFrom_textOfComparison (op : RelOp) (h : wordsFrom 0 path.toList = some ws) :
    wordsFrom 0 (textOfComparison path op).toList = some (ws ++ [.op op, .param]) := by
  have hop := ((Scans.op op).append Scans.nil.param.blank (ends_blank _)).blank
  have hall := (scans_of_wordsFrom h).append hop (ends_blank _)
  simpa [textOfComparison, List.append_assoc] using hall.wordsFrom_eq

/-- The text of a junction has the words of both texts, each in parentheses. -/
theorem wordsFrom_textOfJunction (kind : Junction) (h : wordsFrom 0 text.toList = some ws)
    (h' : wordsFrom 0 text'.toList = some ws') :
    wordsFrom 0 (textOfJunction kind text text').toList =
      some (.leftParen :: ws ++ [.rightParen] ++
        signOf kind :: (.leftParen :: ws' ++ [.rightParen])) := by
  have hright := ((scans_of_wordsFrom h').inParens.blank.junction kind).blank
  have hall := (scans_of_wordsFrom h).inParens.append hright (ends_blank _)
  simpa [textOfJunction, List.append_assoc] using hall.wordsFrom_eq

/-- The text of a complement has the words of the text in parentheses, behind a sign. -/
theorem wordsFrom_textOfComplement (h : wordsFrom 0 text.toList = some ws) :
    wordsFrom 0 (textOfComplement text).toList =
      some (.not :: .leftParen :: ws ++ [.rightParen]) := by
  have hall := (scans_of_wordsFrom h).inParens.not (by simp)
  simpa [textOfComplement] using hall.wordsFrom_eq

/-- The characters of a path do not begin with an equals sign, which would be an operator. -/
theorem head?_ne_of_path {path : Path} {chars : List Char}
    (h : wordsFrom 0 chars = some path.lexemes) : chars.head? ≠ some '=' := by
  intro hhead
  obtain ⟨rest, rfl⟩ := List.head?_eq_some_iff.1 hhead
  have hstep : wordsFrom 0 ('=' :: ([] ++ rest)) = (wordsFrom 0 rest).map (.op .eq :: ·) :=
    wordsFrom_lexeme (by decide) rfl (by decide +kernel)
  rw [List.nil_append, h] at hstep
  obtain ⟨ws, -, hws⟩ := Option.map_eq_some_iff.1 hstep.symm
  rcases path.lexemes_cases with ⟨n, hpath⟩ | ⟨n, hpath⟩
  · rw [hpath] at hws
    cases hws
  · rw [hpath] at hws
    cases hws

/-- The text of a test has the words of its path, and of the text in parentheses behind them. -/
theorem wordsFrom_textOfRows {p : Path} (negated : Bool)
    (hpath : wordsFrom 0 path.toList = some p.lexemes) (h : wordsFrom 0 text.toList = some ws) :
    wordsFrom 0 (textOfRows path text negated).toList =
      some ((if negated then [.not] else []) ++
        (p.lexemes ++ .leftParen :: ws ++ [.rightParen])) := by
  have hrows := (scans_of_wordsFrom hpath).append (scans_of_wordsFrom h).inParens (ends_leftParen _)
  cases negated with
  | false => simpa [textOfRows, List.append_assoc] using hrows.wordsFrom_eq
  | true =>
    have hhead : (path.toList ++ '(' :: (text.toList ++ [')'])).head? ≠ some '=' := by
      cases hchars : path.toList with
      | nil => simp
      | cons c chars =>
        rw [hchars] at hpath
        simpa using head?_ne_of_path hpath
    simpa [textOfRows, List.append_assoc] using (hrows.not hhead).wordsFrom_eq

/-! ## Phrases -/

/-- An operand as a filter. -/
def Phrase.alone (p : Phrase .operand) : Phrase .filter :=
  .single .or (.single .and p)

/-- The junction of two filters in parentheses. -/
def Phrase.ofGroups (kind : Junction) (p q : Phrase .filter) : Phrase .filter :=
  match kind with
  | .and => .single .or (.more .and (.single .and (.group p)) (.group q))
  | .or => .more .or (Phrase.alone (.group p)) (.single .and (.group q))

/-- Two groups under a junction have the words of both. -/
theorem Phrase.lexemes_ofGroups (kind : Junction) (p q : Phrase .filter) :
    (Phrase.ofGroups kind p q).lexemes = .leftParen :: p.lexemes ++ [.rightParen] ++
      signOf kind :: (.leftParen :: q.lexemes ++ [.rightParen]) := by
  cases kind <;> rfl

/-- They denote the junction of what both denote. -/
theorem Phrase.denote_ofGroups {schema : Schema} {e : Entity} {f g : Filter} (kind : Junction)
    {p q : Phrase .filter} (hp : p.denote schema e = some f) (hq : q.denote schema e = some g) :
    (Phrase.ofGroups kind p q).denote schema e = some (.junction e.name kind f g) := by
  cases kind
  · exact denote_more.2 ⟨f, g, hp, hq, rfl⟩
  · exact denote_more.2 ⟨f, g, hp, hq, rfl⟩

end Grammar

/-! ## Parsing -/

namespace Context

variable {ctx : Context} {entity text text' path : String} {f g : Filter}

/-- What is parsed is denoted by a phrase with the words of the text. -/
theorem exists_phrase_of_parse (h : ctx.parse entity text = .ok f) :
    ∃ (e : Entity) (p : Phrase .filter), ctx.entity entity = .ok e ∧
      wordsFrom 0 text.toList = some p.lexemes ∧ p.denote ctx.schema e = some f := by
  obtain ⟨e, he, -⟩ := bind_eq_ok.1 h
  obtain ⟨words, hwords, p, rfl, hf, -, -⟩ := (parse_eq_ok he).1 h
  exact ⟨e, p, he, hwords, hf⟩

/-- What a path resolves to, it resolves to by its words. -/
theorem exists_path_of_chainFor {e : Entity} {use : ChainUse} {r : Resolved}
    (h : ctx.schema.chainFor e use path = .ok r) :
    ∃ p : Path, wordsFrom 0 path.toList = some p.lexemes ∧
      p.resolve? ctx.schema e use = some r := by
  obtain ⟨tokens, hscan, h⟩ := bind_eq_ok.1 h
  obtain ⟨names, hnames, h⟩ := bind_eq_ok.1 h
  obtain ⟨u, hend, h⟩ := bind_eq_ok.1 h
  obtain ⟨p, hbegins, hhops⟩ := segments_sound hnames
  rw [atEnd_eq_ok.1 hend] at hbegins
  exact ⟨p, scan_eq_ok_iff.1 ⟨tokens, hscan, Begins.all_iff.1 hbegins⟩, (resolve_eq_ok hhops).1 h⟩

/-- The text is parsed as the filter, or it is too deep. -/
def ParsesAs (ctx : Context) (entity text : String) (f : Filter) : Prop :=
  (ctx.parse entity text = .ok f ∧ f.depth ≤ ctx.config.maxDepth) ∨
    ctx.parse entity text = .error (.tooDeep ctx.config.maxDepth)

/-- A text with the words of a phrase is parsed to what the phrase denotes, if that is not too
deep. -/
theorem parsesAs_of_phrase {e : Entity} {p : Phrase .filter} (he : ctx.entity entity = .ok e)
    (hwords : wordsFrom 0 text.toList = some p.lexemes) (hf : p.denote ctx.schema e = some f) :
    ctx.ParsesAs entity text f := by
  obtain ⟨tokens, hscan, htokens⟩ := scan_eq_ok_iff.2 hwords
  have hparse : ctx.parse entity text = wholeFilter ⟨ctx.builder, text⟩ e tokens := by
    rw [parse_eq he, hscan]
    rfl
  rw [wholeFilter_of_phrase htokens.symm hf] at hparse
  unfold ParsesAs
  rw [hparse]
  split
  · next hwithin => exact .inl ⟨rfl, hwithin.2⟩
  · exact .inr rfl

/-- A comparison that is built along a path is parsed from its text. -/
theorem parse_textOfComparison {op : RelOp} (h : ctx.builder.comparison entity path op = .ok f) :
    ctx.parse entity (textOfComparison path op) = .ok f := by
  obtain ⟨e, he, h⟩ := bind_eq_ok.1 h
  obtain ⟨r, hr, h⟩ := bind_eq_ok.1 h
  rw [Builder.entity, ofExcept_eq] at he
  rw [ofExcept_eq] at hr
  obtain rfl := Except.ok.inj h
  obtain ⟨p, hpath, hresolve⟩ := exists_path_of_chainFor hr
  -- a comparison neither nests nor has a depth to speak of, so nothing is too deep
  refine (parse_eq_ok he).2 ⟨_, wordsFrom_textOfComparison op hpath, ?_⟩
  exact (Spells.comparison hresolve).single.single

/-- Two texts that are parsed make one for the junction, without regard to how the texts bind. -/
theorem parse_textOfJunction (kind : Junction) (hf : ctx.parse entity text = .ok f)
    (hg : ctx.parse entity text' = .ok g) :
    ctx.ParsesAs entity (textOfJunction kind text text') (.junction f.entity kind f g) := by
  obtain ⟨e, p, he, hwords, hp⟩ := exists_phrase_of_parse hf
  obtain ⟨e', q, he', hwords', hq⟩ := exists_phrase_of_parse hg
  obtain rfl := Except.ok.inj (he.symm.trans he')
  rw [(p.denote_proper hp).2]
  refine parsesAs_of_phrase he ?_ (Phrase.denote_ofGroups kind hp hq)
  rw [Phrase.lexemes_ofGroups]
  exact wordsFrom_textOfJunction kind hwords hwords'

/-- What a text is parsed to is over the entity it is read for, and neither open nor closed. -/
theorem proper_of_parse (h : ctx.parse entity text = .ok f) : f.Proper ∧ f.entity = entity := by
  obtain ⟨e, p, he, -, hp⟩ := exists_phrase_of_parse h
  rw [← Schema.lookup_name he]
  exact p.denote_proper hp

/-- Filters that were parsed over one entity combine to their junction, unless it is too deep. -/
theorem combine_of_parse {kind : Junction} (hf : ctx.parse entity text = .ok f)
    (hg : ctx.parse entity text' = .ok g)
    (hdepth : (Filter.junction f.entity kind f g).depth ≤ ctx.config.maxDepth) :
    ctx.builder.combine kind f g = .ok (.junction f.entity kind f g) := by
  obtain ⟨hfp, hfe⟩ := proper_of_parse hf
  obtain ⟨hgp, hge⟩ := proper_of_parse hg
  have hsame : ctx.builder.entityOf f = ctx.builder.entityOf g := hfe.trans hge.symm
  unfold Builder.combine
  rw [if_pos hsame]
  exact (join_eq_ok hfp hgp).2 ⟨rfl, hdepth⟩

/-- A text that is parsed makes one for the complement. -/
theorem parse_textOfComplement (hf : ctx.parse entity text = .ok f) :
    ctx.ParsesAs entity (textOfComplement text) f.complement := by
  obtain ⟨e, p, he, hwords, hp⟩ := exists_phrase_of_parse hf
  have hcomplement : (Phrase.not (.group p)).denote ctx.schema e = some f.complement :=
    Phrase.denote_not.2 ⟨f, hp, rfl⟩
  have hdenote : (Phrase.alone (.not (.group p))).denote ctx.schema e = some f.complement :=
    hcomplement
  refine parsesAs_of_phrase he ?_ hdenote
  exact wordsFrom_textOfComplement hwords

/-- The target of a test that was built is the entity of the filter inside. -/
theorem target_of_matchTarget {e t : Entity} {r : Resolved} {sub : Filter} {u : Unit}
    (hr : ctx.schema.chainFor e .existence path = .ok r)
    (hmatch : ctx.builder.matchTarget r.target sub = .ok u) (ht : ctx.entity sub.entity = .ok t) :
    r.target = some t := by
  obtain ⟨segs, hr⟩ := Schema.chainFor_eq_ok hr
  obtain ⟨-, -, target, htarget, -⟩ := Schema.resolve_spec hr
  have hregisters : ctx.schema.find? target.name = some target :=
    Schema.registers_target hr htarget
  have hknown : ctx.schema.find? t.name = some t := Schema.registers_of_lookup ht
  rw [htarget] at hmatch ⊢
  unfold Builder.matchTarget at hmatch
  simp only at hmatch
  split at hmatch
  · next hname =>
    -- one name stands for one entity of the schema
    have hsame : target.name = t.name := hname.trans (Schema.lookup_name ht).symm
    rw [hsame, hknown] at hregisters
    exact hregisters.symm
  · cases hmatch

/-- A path and a text that is parsed make one for the test, however the path is written. -/
theorem parse_textOfRows {sub : Filter} {negated : Bool}
    (h : ctx.builder.rowsAt entity path sub negated = .ok f)
    (hsub : ctx.parse sub.entity text = .ok sub) :
    ctx.ParsesAs entity (textOfRows path text negated) f := by
  obtain ⟨e, he, h⟩ := bind_eq_ok.1 h
  obtain ⟨r, hr, h⟩ := bind_eq_ok.1 h
  obtain ⟨u, hmatch, h⟩ := bind_eq_ok.1 h
  rw [Builder.entity, ofExcept_eq] at he
  rw [ofExcept_eq] at hr
  obtain ⟨-, rfl, -⟩ := existence_eq_ok.1 h
  obtain ⟨p, hpath, hresolve⟩ := exists_path_of_chainFor hr
  obtain ⟨t, q, ht, hwords, hq⟩ := exists_phrase_of_parse hsub
  have htarget : r.target = some t := target_of_matchTarget hr hmatch ht
  have hrows : (Phrase.rows p q).denote ctx.schema e =
      some (.existence e.name r.chain false sub) :=
    Phrase.denote_rows.2 ⟨r, t, sub, hresolve, htarget, hq, rfl⟩
  have hall := wordsFrom_textOfRows negated hpath hwords
  cases negated with
  | false =>
    have hdenote : (Phrase.alone (.rows p q)).denote ctx.schema e = _ := hrows
    refine parsesAs_of_phrase he ?_ hdenote
    exact hall
  | true =>
    -- the sign turns the test for rows into the test for their absence
    have hdenote : (Phrase.alone (.not (.rows p q))).denote ctx.schema e = _ :=
      Phrase.denote_not.2 ⟨_, hrows, rfl⟩
    refine parsesAs_of_phrase he ?_ hdenote
    exact hall

end Context

/-! ## Sessions -/

namespace Pool

variable {ctx : Context} {pool : Pool} {held : List Instance}

/-- The request is about instances that are held, and is answered with one that is held. -/
structure Answers (ctx : Context) (pool : Pool) (held : List Instance) (q : Request)
    (i : Instance) : Prop where
  arguments : ∀ a ∈ q.arguments, a ∈ held
  mem : i ∈ held
  answered : ∃ pool', (serve ctx q).run pool = (.ok [i], pool')

/-- In a session, to answer with an instance is to hold it and to answer with its filter. -/
theorem Reached.answers_iff (h : Reached ctx pool held) {q : Request} {i : Instance} :
    Answers ctx pool held q i ↔ (∀ a ∈ q.arguments, a ∈ held) ∧ i ∈ held ∧
      ctx.answer (q.map Instance.filter) = .ok [i.filter] := by
  constructor
  · rintro ⟨hq, hi, pool', hrun⟩
    exact ⟨hq, hi, (h.of_run hq hrun).2⟩
  · rintro ⟨hq, hi, hanswer⟩
    exact ⟨hq, hi, h.serve_held hq hi hanswer⟩

/-- What was answered is held, and is answered from then on. -/
theorem Reached.answers_of_run (h : Reached ctx pool held) {q : Request} {i : Instance}
    {pool₁ pool' : Pool} {held' : List Instance} (hq : ∀ a ∈ q.arguments, a ∈ held)
    (hrun : (serve ctx q).run pool = (.ok [i], pool₁))
    (hleads : Leads ctx pool₁ (i :: held) pool' held') : Answers ctx pool' held' q i := by
  obtain ⟨hreached, hanswer⟩ := h.of_run hq hrun
  refine (hleads.reached hreached).answers_iff.2 ⟨fun a ha => ?_, ?_, hanswer⟩
  · exact hleads.mem a (List.mem_cons_of_mem _ (hq a ha))
  · exact hleads.mem i List.mem_cons_self

/-- The text is parsed as the instance that the request is answered with, or it is too deep. -/
def ParsedLike (ctx : Context) (pool : Pool) (held : List Instance) (entity text : String)
    (q : Request) : Prop :=
  (∃ g pool', (serve ctx (.parse entity text)).run pool = (.ok [g], pool') ∧
      Answers ctx pool' (g :: held) q g) ∨
    ((serve ctx (.parse entity text)).run pool).1 = .error (.tooDeep ctx.config.maxDepth)

/-- A text that is parsed to a filter and a request that is answered with it give one instance,
and are refused alike. -/
theorem Reached.parsedLike (h : Reached ctx pool held) {entity text : String} {f : Filter}
    (hparse : ctx.ParsesAs entity text f) {q : Request} (hq : ∀ a ∈ q.arguments, a ∈ held)
    (hanswer : f.depth ≤ ctx.config.maxDepth → ctx.answer (q.map Instance.filter) = .ok [f]) :
    ParsedLike ctx pool held entity text q := by
  rcases hparse with ⟨hparse, hdepth⟩ | hdeep
  · obtain ⟨g, pool', hrun, rfl, hreached⟩ := h.parse_ok hparse
    refine .inl ⟨g, pool', hrun, hreached.answers_iff.2 ⟨fun a ha => ?_, ?_, hanswer hdepth⟩⟩
    · exact List.mem_cons_of_mem _ (hq a ha)
    · exact List.mem_cons_self
  · exact .inr (h.parse_error_iff.2 hdeep)

/-- The answer to a request for one filter. -/
theorem Reached.eq_ok_of_answers (h : Reached ctx pool held) {q : Request} {i : Instance}
    (ha : Answers ctx pool held q i) {x : Except FilterError Filter}
    (hx : ctx.answer (q.map Instance.filter) = do return [← x]) : x = .ok i.filter := by
  obtain ⟨-, -, hanswer⟩ := h.answers_iff.1 ha
  rw [hx] at hanswer
  obtain ⟨f, hf, hsingle⟩ := bind_eq_ok.1 hanswer
  obtain rfl := List.singleton_inj.1 (pure_eq_ok.1 hsingle)
  exact hf

/-- In a session what is written is what is built. An answer stays the answer. The text of a
comparison is parsed as the comparison; texts put together with the sign of a junction or of the
complement are parsed as what the instances of the texts combine to, and a text behind a path as the
test for rows of its instance, or else the text is too deep. -/
theorem Reached.texts_agree_with_steps (h : Reached ctx pool held) :
    (∀ {q : Request} {i : Instance} {pool₁ pool' : Pool} {held' : List Instance},
      (∀ a ∈ q.arguments, a ∈ held) → (serve ctx q).run pool = (.ok [i], pool₁) →
        Leads ctx pool₁ (i :: held) pool' held' → Answers ctx pool' held' q i) ∧
      (∀ {entity path : String} {op : RelOp} {f : Instance},
        Answers ctx pool held (.comparison entity path op) f →
          Answers ctx pool held (.parse entity (textOfComparison path op)) f) ∧
      (∀ {entity text₁ text₂ : String} {f₁ f₂ : Instance},
        Answers ctx pool held (.parse entity text₁) f₁ →
        Answers ctx pool held (.parse entity text₂) f₂ →
          (∀ kind, ParsedLike ctx pool held entity (textOfJunction kind text₁ text₂)
            (.combine kind f₁ f₂)) ∧
          ParsedLike ctx pool held entity (textOfComplement text₁) (.complement f₁)) ∧
      ∀ {entity path text : String} {s f : Instance} {negated : Bool},
        Answers ctx pool held (.parse s.node.entity text) s →
        Answers ctx pool held (.rowsAt entity path s negated) f →
          Answers ctx pool held (.parse entity (textOfRows path text negated)) f ∨
            ((serve ctx (.parse entity (textOfRows path text negated))).run pool).1 =
              .error (.tooDeep ctx.config.maxDepth) := by
  refine ⟨h.answers_of_run, fun hf => ?_,
    fun {entity text₁ text₂ f₁ f₂} hf₁ hf₂ => ⟨fun kind => ?_, ?_⟩,
    fun {entity path text s f negated} hs hf => ?_⟩
  · have hparse := Context.parse_textOfComparison (h.eq_ok_of_answers hf rfl)
    exact ⟨by simp [Query.arguments], hf.mem, h.parse_held hf.mem hparse⟩
  · have hparse₁ : ctx.parse entity text₁ = .ok f₁.filter := h.eq_ok_of_answers hf₁ rfl
    have hparse₂ : ctx.parse entity text₂ = .ok f₂.filter := h.eq_ok_of_answers hf₂ rfl
    refine h.parsedLike (Context.parse_textOfJunction kind hparse₁ hparse₂) ?_ fun hdepth => ?_
    · simp [Query.arguments, hf₁.mem, hf₂.mem]
    · have hcombine : ctx.builder.combine kind f₁.filter f₂.filter = .ok _ :=
        Context.combine_of_parse hparse₁ hparse₂ hdepth
      simp [Query.map, Context.answer, hcombine]
  · have hparse : ctx.parse entity text₁ = .ok f₁.filter := h.eq_ok_of_answers hf₁ rfl
    refine h.parsedLike (Context.parse_textOfComplement hparse) ?_ fun _ => rfl
    simp [Query.arguments, hf₁.mem]
  · rw [entity_node] at hs
    have hsub : ctx.parse s.filter.entity text = .ok s.filter := h.eq_ok_of_answers hs rfl
    have hrows : ctx.builder.rowsAt entity path s.filter negated = .ok f.filter :=
      h.eq_ok_of_answers hf rfl
    rcases Context.parse_textOfRows hrows hsub with ⟨hparse, -⟩ | hdeep
    · exact .inl ⟨by simp [Query.arguments], hf.mem, h.parse_held hf.mem hparse⟩
    · exact .inr (h.parse_error_iff.2 hdeep)

/-- The sample text, negated and joined with itself, is parsed as what its instance is built
into. -/
theorem Sample.texts_agree_given :
    ∃ i, given = [i] ∧ i.filter = filter ∧
      (∃ c pool', (serve context (.parse "order" (textOfComplement text))).run after =
          (.ok [c], pool') ∧ Answers context pool' (c :: given) (.complement i) c) ∧
      ∃ g pool', (serve context (.parse "order" (textOfJunction .or text text))).run after =
          (.ok [g], pool') ∧ Answers context pool' (g :: given) (.combine .or i i) g := by
  obtain ⟨i, hgiven, hi, hfilter⟩ := Sample.exists_given
  have hparsed : Answers context after given (.parse "order" text) i := by
    refine reached.answers_iff.2 ⟨by simp [Query.arguments], hi, ?_⟩
    rw [hfilter]
    decide +kernel
  obtain ⟨hjunction, hcomplement⟩ := (Reached.texts_agree_with_steps reached).2.2.1 hparsed hparsed
  -- neither text is too deep
  have hanswered : ∀ t, (context.answer (.parse "order" t)).isOk = true →
      ((serve context (.parse "order" t)).run after).1 ≠
        .error (.tooDeep context.config.maxDepth) := by
    intro t hok herror
    have hserve := reached.serve_eq (q := .parse "order" t) (by simp [Query.arguments])
    rw [herror] at hserve
    have hanswer : context.answer (.parse "order" t) =
      .error (.tooDeep context.config.maxDepth) := hserve.symm
    rw [hanswer] at hok
    cases hok
  have hnegated := hanswered (textOfComplement text) (by decide +kernel)
  have hjoined := hanswered (textOfJunction .or text text) (by decide +kernel)
  exact ⟨i, hgiven, hfilter, hcomplement.resolve_right hnegated,
    (hjunction .or).resolve_right hjoined⟩

end Pool

end RowFilter
