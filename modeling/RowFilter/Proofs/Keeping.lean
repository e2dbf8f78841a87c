import RowFilter.Pool.Request
import RowFilter.Proofs.ReaderCompleteness
import RowFilter.Proofs.Shape

/-!
# What every operation keeps

A property of filters holds of everything that can be asked for as soon as the steps keep it by
which filters come about: the leaves that names resolve to, junctions and existence tests within
the limits, complements, and numbering (`Kept`). What texts, outlines, normal forms and reordering
are built from are these steps and no others; that is shown here once, for every such property.
-/

namespace RowFilter

open RowFilter.Grammar

variable {ctx : Context} {P : Filter → Prop} {e : String} {f : Filter}

/-! ## Entities of the schema -/

/-- The entity is the one of its name in the schema. -/
def Schema.Registers (schema : Schema) (e : Entity) : Prop :=
  schema.find? e.name = some e

/-- What is found under a name is found under its own. -/
theorem Schema.registers_of_find? {schema : Schema} {name : String} {e : Entity}
    (h : schema.find? name = some e) : schema.Registers e := by
  rw [Schema.Registers, Schema.find?_name h]
  exact h

theorem Schema.registers_of_entity {schema : Schema} {name : String} {e : Entity}
    (h : schema.entity name = .ok e) : schema.Registers e := by
  unfold Schema.entity at h
  split at h
  · next e' hfind =>
    obtain rfl := Except.ok.inj h
    exact Schema.registers_of_find? hfind
  · exact nomatch h

theorem Schema.registers_of_lookup {schema : Schema} {name : String} {e : Entity}
    (h : schema.lookup name = .ok e) : schema.Registers e := by
  unfold Schema.lookup at h
  split at h
  · next e' he =>
    obtain rfl := Except.ok.inj h
    exact Schema.registers_of_entity he
  · exact nomatch h

/-- What a property leads to is an entity of the schema. -/
theorem Schema.registers_of_follow {schema : Schema} {p : Property} {e : Entity}
    (h : schema.follow p = .ok (some e)) : schema.Registers e := by
  unfold follow at h
  split at h
  · exact nomatch Except.ok.inj h
  · split at h
    · next e' he =>
      obtain rfl := Option.some.inj (Except.ok.inj h)
      exact Schema.registers_of_entity he
    · exact nomatch h

/-- The rows that a test is about are those of an entity of the schema, by induction on the
names. -/
theorem Schema.registers_target {schema : Schema} {e target : Entity} {joins : List Hop}
    {segs : List Segment} {use : ChainUse} {text : String} {r : Resolved}
    (h : schema.resolveFrom use text e joins segs = .ok r) (htarget : r.target = some target) :
    schema.Registers target := by
  induction segs generalizing e joins with
  | nil => exact nomatch h
  | cons s rest ih =>
    cases rest with
    | nil =>
      obtain ⟨p, -, h⟩ := bind_eq_ok.1 h
      obtain ⟨found, hfound, h⟩ := bind_eq_ok.1 h
      obtain rfl := pure_eq_ok.1 h
      obtain rfl : found = some target := htarget
      exact Schema.registers_of_follow hfound
    | cons s' rest =>
      obtain ⟨p, -, h⟩ := bind_eq_ok.1 h
      obtain ⟨found, -, h⟩ := bind_eq_ok.1 h
      exact ih h

theorem registers_of_builder {name : String} {e : Entity}
    (h : ctx.builder.entity name = .ok e) : ctx.schema.Registers e := by
  unfold Builder.entity at h
  rw [ofExcept_eq] at h
  exact Schema.registers_of_lookup h

/-! ## Chains that resolved -/

/-- A path that resolves is read as names first. -/
theorem Schema.chainFor_eq_ok {schema : Schema} {e : Entity} {use : ChainUse} {path : String}
    {r : Resolved} (h : schema.chainFor e use path = .ok r) :
    ∃ segs, schema.resolve e segs use path = .ok r := by
  obtain ⟨tokens, -, h⟩ := bind_eq_ok.1 h
  obtain ⟨names, -, h⟩ := bind_eq_ok.1 h
  obtain ⟨_, -, h⟩ := bind_eq_ok.1 h
  exact ⟨names.value, h⟩

/-- A path of words resolves as its names do, in whatever text. -/
theorem Grammar.Path.resolve?_eq_some {schema : Schema} {path : Path} {e : Entity} {use : ChainUse}
    {r : Resolved} (h : path.resolve? schema e use = some r) :
    ∃ segs text, schema.resolve e segs use text = .ok r := by
  unfold Path.resolve? at h
  cases hchain : schema.chainOf e path.names use with
  | error error =>
    rw [hchain] at h
    exact nomatch h
  | ok r' =>
    rw [hchain] at h
    obtain rfl := Option.some.inj h
    exact ⟨_, _, hchain⟩

/-- A constant that was coerced is one that coercion leaves alone. -/
theorem Chain.coerced_operand {c : Chain} {o o' : Operand} (h : c.operand o = .ok o')
    {kind : ScalarKind} (hkind : c.final.property.kind = .scalar kind) {v : Value}
    (hv : o' = .constant v) : v.coerce? kind c.final.property.nullable = some v := by
  subst hv
  cases o with
  | constant w =>
    obtain ⟨w', hw, h⟩ := bind_eq_ok.1 h
    obtain rfl := Operand.constant.inj (pure_eq_ok.1 h)
    exact Chain.coerce_spec hw hkind
  | unbound | bound => exact nomatch h

/-! ## The steps -/

/-- Every step that builds a filter keeps the property, given that it holds of what the step
starts from. -/
structure Kept (ctx : Context) (P : Filter → Prop) : Prop where
  opened : ∀ {e : Entity}, ctx.schema.Registers e → P (.opened e.name)
  closed : ∀ {e : Entity}, ctx.schema.Registers e → P (.closed e.name)
  /-- The junctions of no filters over the entity of a filter. -/
  unit : ∀ {f : Filter}, P f → P (.opened f.entity) ∧ P (.closed f.entity)
  /-- A comparison at the end of a chain that resolved for comparing. -/
  compare : ∀ {e : Entity} {segs : List Segment} {text : String} {r : Resolved} {op : RelOp}
    {operand : Operand}, ctx.schema.Registers e →
    ctx.schema.resolve e segs .comparison text = .ok r →
    (∀ {kind : ScalarKind} {v : Value}, r.chain.final.property.kind = .scalar kind →
      operand = .constant v → v.coerce? kind r.chain.final.property.nullable = some v) →
    P (.compare ⟨e.name, ⟨r.chain, op⟩, operand⟩)
  /-- An existence test at the end of a chain that resolved for testing. -/
  existence : ∀ {e target : Entity} {segs : List Segment} {text : String} {r : Resolved}
    {negated : Bool} {sub : Filter}, ctx.schema.Registers e →
    ctx.schema.resolve e segs .existence text = .ok r → r.target = some target →
    target.name = sub.entity → sub.isClosed = false → P sub →
    sub.depth + 1 ≤ ctx.config.maxDepth → P (.existence e.name r.chain negated sub)
  junction : ∀ {kind : Junction} {l r : Filter}, l.Proper → r.Proper → r.entity = l.entity →
    P l → P r → max l.depth r.depth + 1 ≤ ctx.config.maxDepth →
    P (.junction l.entity kind l r)
  operands : ∀ {e : String} {kind : Junction} {l r : Filter}, P (.junction e kind l r) →
    (l.entity = e ∧ P l) ∧ r.entity = e ∧ P r
  sub : ∀ {e : String} {c : Chain} {negated : Bool} {sub : Filter},
    P (.existence e c negated sub) → P sub
  /-- Another filter over the same entity inside an existence test. -/
  within : ∀ {e : String} {c : Chain} {negated : Bool} {sub sub' : Filter},
    P (.existence e c negated sub) → P sub' → sub'.entity = sub.entity → sub'.isClosed = false →
    sub'.depth + 1 ≤ ctx.config.maxDepth → P (.existence e c negated sub')
  complement : ∀ {f : Filter}, P f → P f.complement
  number : ∀ {f : Filter} (counters : Counters), P f → P (f.number counters).1

/-- The filter is about the entity and has the property. -/
def Filter.Over (P : Filter → Prop) (e : String) (f : Filter) : Prop :=
  f.entity = e ∧ P f

/-- A filter that no junction of a kind gives way for is neither open nor closed. -/
theorem proper_of_kept {kind : Junction} (ha : ¬ctx.builder.absorbs kind f = true)
    (hi : ¬ctx.builder.ignores kind f = true) : f.Proper := by
  cases kind
  · exact ⟨Bool.eq_false_iff.2 hi, Bool.eq_false_iff.2 ha⟩
  · exact ⟨Bool.eq_false_iff.2 ha, Bool.eq_false_iff.2 hi⟩

namespace Kept

/-- Operands with the property join to a filter with it, be it one of them. -/
theorem join (hP : Kept ctx P) {kind : Junction} {l r : Filter} (hl : l.Over P e)
    (hr : r.Over P e) (h : ctx.builder.join kind l r = .ok f) : f.Over P e := by
  unfold Builder.join at h
  split at h
  · obtain rfl := Except.ok.inj h
    exact hl
  · next hkeep =>
    split at h
    · obtain rfl := Except.ok.inj h
      exact hr
    · next hkeep' =>
      -- neither gave way: the questions about the two, read crosswise, make both proper
      simp only [Bool.or_eq_true, not_or] at hkeep hkeep'
      obtain ⟨rfl, hdepth⟩ := withinDepth_eq_ok.1 h
      obtain ⟨rfl, hl⟩ := hl
      obtain ⟨hentity, hr⟩ := hr
      exact ⟨rfl, hP.junction (proper_of_kept hkeep.1 hkeep'.2) (proper_of_kept hkeep'.1 hkeep.2)
        hentity hl hr hdepth⟩

/-- Joining one operand after the other keeps it, by induction on those that are left. -/
theorem joinFrom (hP : Kept ctx P) {kind : Junction} {l : Filter} {rest : List Filter}
    (hl : l.Over P e) (hrest : ∀ g ∈ rest, g.Over P e)
    (h : rest.foldlM (ctx.builder.join kind) l = .ok f) : f.Over P e := by
  induction rest generalizing l with
  | nil =>
    obtain rfl := Except.ok.inj h
    exact hl
  | cons g rest ih =>
    rw [List.foldlM_cons] at h
    obtain ⟨j, hj, h⟩ := bind_eq_ok.1 h
    have hg : g.Over P e := hrest g (by simp)
    exact ih (hP.join hl hg hj) (fun k hk => hrest k (by simp [hk])) h

/-- Filters over the entity of a filter join to a filter over it, even if there are none. -/
theorem joinAll (hP : Kept ctx P) {kind : Junction} {fs : List Filter} {g : Filter}
    (hg : g.Over P e) (hfs : ∀ k ∈ fs, k.Over P e) (h : ctx.joinAll e kind fs = .ok f) :
    f.Over P e := by
  obtain ⟨rfl, hg⟩ := hg
  cases fs with
  | nil =>
    cases kind with
    | and =>
      obtain rfl := Except.ok.inj h
      exact ⟨rfl, (hP.unit hg).1⟩
    | or =>
      obtain rfl := Except.ok.inj h
      exact ⟨rfl, (hP.unit hg).2⟩
  | cons k rest =>
    have hk : k.Over P g.entity := hfs k (by simp)
    exact hP.joinFrom hk (fun k' hk' => hfs k' (by simp [hk'])) h

theorem combine (hP : Kept ctx P) {kind : Junction} {l r : Filter} (hl : P l) (hr : P r)
    (h : ctx.builder.combine kind l r = .ok f) : P f := by
  unfold Builder.combine at h
  split at h
  · next hentity =>
    have hentity : l.entity = r.entity := hentity
    exact (hP.join ⟨rfl, hl⟩ ⟨hentity.symm, hr⟩ h).2
  · exact nomatch h

theorem bind (hP : Kept ctx P) (hf : P f) : P f.bind := by
  unfold Filter.bind
  split
  · exact hf
  · exact hP.number _ hf

/-! ## Normal forms -/

/-- The atoms of all clauses are over the entity of the filter and have the property. -/
theorem clauses (hP : Kept ctx P) {outer : Junction} {limit : Nat} {cs : List (List Filter)}
    (hf : f.Over P e) (h : f.clauses outer limit = .ok cs) :
    ∀ c ∈ cs, ∀ g ∈ c, g.Over P e := by
  induction f generalizing cs with
  | opened | closed | compare | existence =>
    obtain rfl := Except.ok.inj h
    simpa using hf
  | junction e' kind left right ihl ihr =>
    obtain ⟨rfl, hf⟩ := hf
    obtain ⟨ls, hls, h⟩ := bind_eq_ok.1 h
    obtain ⟨rs, hrs, h⟩ := bind_eq_ok.1 h
    obtain ⟨hl, hr⟩ := hP.operands hf
    have hleft := ihl hl hls
    have hright := ihr hr hrs
    split at h
    · obtain ⟨_, -, h⟩ := bind_eq_ok.1 h
      obtain rfl := pure_eq_ok.1 h
      intro c hc
      rcases List.mem_append.1 hc with hc | hc
      · exact hleft c hc
      · exact hright c hc
    · obtain ⟨_, -, h⟩ := bind_eq_ok.1 h
      obtain rfl := pure_eq_ok.1 h
      -- a clause of the product is a clause of the left and one of the right
      intro c hc g hg
      obtain ⟨l, hl, r, hr, rfl⟩ := mem_distribute.1 hc
      rcases List.mem_append.1 hg with hg | hg
      · exact hleft l hl g hg
      · exact hright r hr g hg

/-- Clauses of such atoms join to such filters. -/
theorem joinClauses (hP : Kept ctx P) {kind : Junction} {cs : List (List Filter)}
    {fs : List Filter} {g : Filter} (hg : g.Over P e) (hcs : ∀ c ∈ cs, ∀ k ∈ c, k.Over P e)
    (h : cs.mapM (ctx.joinAll e kind) = .ok fs) : ∀ k ∈ fs, k.Over P e := by
  induction cs generalizing fs with
  | nil =>
    obtain rfl := Except.ok.inj h
    simp
  | cons c cs ih =>
    rw [List.mapM_cons] at h
    obtain ⟨f, hf, h⟩ := bind_eq_ok.1 h
    obtain ⟨rest, hrest, h⟩ := bind_eq_ok.1 h
    obtain rfl := pure_eq_ok.1 h
    intro k hk
    rcases List.mem_cons.1 hk with rfl | hk
    · exact hP.joinAll hg (hcs c (by simp)) hf
    · exact ih (fun c hc => hcs c (by simp [hc])) hrest k hk

theorem split (hP : Kept ctx P) {outer : Junction} {fs : List Filter} (hf : P f)
    (h : ctx.split outer f = .ok fs) : ∀ g ∈ fs, g.Over P f.entity := by
  obtain ⟨cs, hcs, h⟩ := bind_eq_ok.1 h
  exact hP.joinClauses ⟨rfl, hf⟩ (hP.clauses ⟨rfl, hf⟩ hcs) h

theorem normalForm (hP : Kept ctx P) {outer : Junction} {g : Filter} (hf : P f)
    (h : ctx.normalForm outer f = .ok g) : P g := by
  obtain ⟨fs, hfs, h⟩ := bind_eq_ok.1 h
  exact (hP.joinAll ⟨rfl, hf⟩ (hP.split hf hfs) h).2

/-! ## Reordering -/

/-- Each operand in the new order has the property, by induction on the filter. -/
theorem reordered (hP : Kept ctx P) {run : Option Junction} {fs : List Filter} (hf : f.Over P e)
    (h : ctx.reordered run f = .ok fs) : ∀ g ∈ fs, g.Over P e := by
  induction f generalizing run e fs with
  | opened | closed | compare =>
    cases run <;> obtain rfl := Except.ok.inj h <;> simpa using hf
  | existence e' c negated sub ih =>
    -- what is inside is over its own entity, so the induction is over all entities
    rw [Context.reordered] at h
    obtain ⟨rfl, hf⟩ := hf
    obtain ⟨ss, hss, h⟩ := bind_eq_ok.1 h
    obtain ⟨sub', hsub', h⟩ := bind_eq_ok.1 h
    have hsub : sub.Over P sub.entity := ⟨rfl, hP.sub hf⟩
    obtain ⟨hentity, hnew⟩ := hP.joinAll hsub (ih hsub hss) hsub'
    split at h
    · obtain rfl := pure_eq_ok.1 h
      simpa using ⟨rfl, hf⟩
    · -- a new test keeps the chain of the old one, whose target is the same entity still
      obtain ⟨g, hg, h⟩ := bind_eq_ok.1 h
      obtain rfl := pure_eq_ok.1 h
      obtain ⟨hclosed, rfl, hdepth⟩ := existence_eq_ok.1 hg
      simpa using ⟨rfl, hP.within hf hnew hentity hclosed hdepth⟩
  | junction e' kind left right ihl ihr =>
    rw [Context.reordered] at h
    obtain ⟨rfl, hf⟩ := hf
    obtain ⟨ls, hls, h⟩ := bind_eq_ok.1 h
    obtain ⟨rs, hrs, h⟩ := bind_eq_ok.1 h
    obtain ⟨hl, hr⟩ := hP.operands hf
    have hall : ∀ g ∈ ls ++ rs, g.Over P e' := by
      intro g hg
      rcases List.mem_append.1 hg with hg | hg
      · exact ihl hl hls g hg
      · exact ihr hr hrs g hg
    split at h
    · obtain rfl := pure_eq_ok.1 h
      exact hall
    · obtain ⟨g, hg, h⟩ := bind_eq_ok.1 h
      obtain rfl := pure_eq_ok.1 h
      -- sorting adds no operand
      have hsorted : ∀ k ∈ cheapestFirst Filter.cost (ls ++ rs), k.Over P e' :=
        fun k hk => hall k ((cheapestFirst_perm _ _).mem_iff.1 hk)
      have hover : g.Over P e' := hP.joinAll hl hsorted hg
      intro k hk
      rwa [List.mem_singleton.1 hk]

theorem optimize (hP : Kept ctx P) {g : Filter} (hf : P f) (h : ctx.optimize f = .ok g) :
    P g := by
  obtain ⟨fs, hfs, h⟩ := bind_eq_ok.1 h
  exact (hP.joinAll ⟨rfl, hf⟩ (hP.reordered ⟨rfl, hf⟩ hfs) h).2

/-! ## Parts by name -/

theorem of_opened (hP : Kept ctx P) {entity : String}
    (h : ctx.builder.opened entity = .ok f) : P f := by
  obtain ⟨e, he, h⟩ := bind_eq_ok.1 h
  obtain rfl := Except.ok.inj h
  exact hP.opened (registers_of_builder he)

theorem of_closed (hP : Kept ctx P) {entity : String}
    (h : ctx.builder.closed entity = .ok f) : P f := by
  obtain ⟨e, he, h⟩ := bind_eq_ok.1 h
  obtain rfl := Except.ok.inj h
  exact hP.closed (registers_of_builder he)

theorem of_comparison (hP : Kept ctx P) {entity path : String} {op : RelOp}
    (h : ctx.builder.comparison entity path op = .ok f) : P f := by
  obtain ⟨e, he, h⟩ := bind_eq_ok.1 h
  obtain ⟨r, hr, h⟩ := bind_eq_ok.1 h
  rw [ofExcept_eq] at hr
  obtain ⟨segs, hr⟩ := Schema.chainFor_eq_ok hr
  obtain rfl := Except.ok.inj h
  exact hP.compare (registers_of_builder he) hr fun _ hv => (nomatch hv)

theorem of_constant (hP : Kept ctx P) {entity path : String} {op : RelOp} {v : Value}
    (h : ctx.builder.constant entity path op v = .ok f) : P f := by
  obtain ⟨e, he, h⟩ := bind_eq_ok.1 h
  obtain ⟨r, hr, h⟩ := bind_eq_ok.1 h
  obtain ⟨w, hw, h⟩ := bind_eq_ok.1 h
  rw [ofExcept_eq] at hr hw
  obtain ⟨segs, hr⟩ := Schema.chainFor_eq_ok hr
  obtain rfl := Except.ok.inj h
  refine hP.compare (registers_of_builder he) hr fun hkind hv => ?_
  obtain rfl := Operand.constant.inj hv
  exact Chain.coerce_spec hw hkind

/-- An existence test over a filter that matches the target of a chain resolved for testing. -/
theorem of_existence (hP : Kept ctx P) {e : Entity} {segs : List Segment} {text : String}
    {r : Resolved} {negated : Bool} {sub : Filter} {u : Unit} (he : ctx.schema.Registers e)
    (hr : ctx.schema.resolve e segs .existence text = .ok r) (hsub : P sub)
    (hmatch : ctx.builder.matchTarget r.target sub = .ok u)
    (h : ctx.builder.existence e.name r.chain negated sub = .ok f) : P f := by
  obtain ⟨hclosed, rfl, hdepth⟩ := existence_eq_ok.1 h
  obtain ⟨-, -, target, htarget, -⟩ := Schema.resolve_spec hr
  rw [htarget] at hmatch
  unfold Builder.matchTarget at hmatch
  simp only at hmatch
  -- the filter is over the target, or the step before would have failed
  split at hmatch
  · next hname => exact hP.existence he hr htarget hname hclosed hsub hdepth
  · exact nomatch hmatch

/-- A test along a path has the property if the filter inside does. -/
theorem of_rowsAt (hP : Kept ctx P) {entity path : String} {sub : Filter} {negated : Bool}
    (hsub : P sub) (h : ctx.builder.rowsAt entity path sub negated = .ok f) : P f := by
  obtain ⟨e, he, h⟩ := bind_eq_ok.1 h
  obtain ⟨r, hr, h⟩ := bind_eq_ok.1 h
  obtain ⟨u, hmatch, h⟩ := bind_eq_ok.1 h
  rw [ofExcept_eq] at hr
  obtain ⟨segs, hr⟩ := Schema.chainFor_eq_ok hr
  exact hP.of_existence (registers_of_builder he) hr hsub hmatch h

/-! ## Texts -/

/-- What a phrase denotes has the property, by induction on the phrase. -/
theorem of_phrase (hP : Kept ctx P) {c : Category} (p : Phrase c) {e : Entity}
    (he : ctx.schema.Registers e) (h : p.denote ctx.schema e = some f)
    (hdepth : f.depth ≤ ctx.config.maxDepth) : P f := by
  induction p generalizing e f with
  | single kind p ih => exact ih he h hdepth
  | more kind before next ihb ihn =>
    obtain ⟨left, right, hleft, hright, rfl⟩ := Phrase.denote_more.1 h
    obtain ⟨hlp, hle⟩ := before.denote_proper hleft
    obtain ⟨hrp, hre⟩ := next.denote_proper hright
    have hparts : max left.depth right.depth + 1 ≤ ctx.config.maxDepth := hdepth
    rw [← hle]
    exact hP.junction hlp hrp (hre.trans hle.symm) (ihb he hleft (by omega))
      (ihn he hright (by omega)) hdepth
  | not p ih =>
    obtain ⟨g, hg, rfl⟩ := Phrase.denote_not.1 h
    rw [Filter.depth_complement] at hdepth
    exact hP.complement (ih he hg hdepth)
  | group p ih => exact ih he h hdepth
  | comparison path op =>
    obtain ⟨r, hr, rfl⟩ := Phrase.denote_comparison.1 h
    obtain ⟨segs, text, hr⟩ := Path.resolve?_eq_some hr
    exact hP.compare he hr fun _ hv => (nomatch hv)
  | anyRow path =>
    obtain ⟨r, target, hr, htarget, rfl⟩ := Phrase.denote_anyRow.1 h
    obtain ⟨segs, text, hr⟩ := Path.resolve?_eq_some hr
    have hopened := hP.opened (Schema.registers_target hr htarget)
    exact hP.existence he hr htarget rfl rfl hopened hdepth
  | rows path body ih =>
    obtain ⟨r, target, sub, hr, htarget, hsub, rfl⟩ := Phrase.denote_rows.1 h
    obtain ⟨segs, text, hr⟩ := Path.resolve?_eq_some hr
    obtain ⟨hproper, hentity⟩ := body.denote_proper hsub
    have hinner : sub.depth + 1 ≤ ctx.config.maxDepth := hdepth
    have hkept := ih (Schema.registers_target hr htarget) hsub (by omega)
    exact hP.existence he hr htarget hentity.symm hproper.2 hkept hdepth

theorem of_text (hP : Kept ctx P) {entity text : String} (h : ctx.parse entity text = .ok f) :
    P f := by
  obtain ⟨e, he, h⟩ := bind_eq_ok.1 h
  obtain ⟨tokens, -, h⟩ := bind_eq_ok.1 h
  obtain ⟨p, -, hf, -, hdepth⟩ := wholeFilter_eq_ok.1 h
  exact hP.of_phrase p (Schema.registers_of_lookup he) hf hdepth

/-! ## Outlines -/

mutual

/-- What an outline is rebuilt to has the property, by recursion on the outline. -/
theorem of_outline (hP : Kept ctx P) {f : Filter} (o : Outline)
    (h : ctx.builder.rebuild o = .ok f) : P f := by
  cases o with
  | opened entity =>
    rw [Builder.rebuild] at h
    exact hP.of_opened h
  | closed entity =>
    rw [Builder.rebuild] at h
    exact hP.of_closed h
  | compare entity chain op operand =>
    rw [Builder.rebuild] at h
    obtain ⟨e, he, h⟩ := bind_eq_ok.1 h
    obtain ⟨r, hr, h⟩ := bind_eq_ok.1 h
    obtain ⟨operand', hoperand, h⟩ := bind_eq_ok.1 h
    rw [ofExcept_eq] at hr hoperand
    obtain rfl := Except.ok.inj h
    exact hP.compare (registers_of_builder he) hr
      fun hkind hv => Chain.coerced_operand hoperand hkind hv
  | existence entity chain negated sub =>
    rw [Builder.rebuild] at h
    obtain ⟨e, he, h⟩ := bind_eq_ok.1 h
    obtain ⟨r, hr, h⟩ := bind_eq_ok.1 h
    obtain ⟨sub', hsub, h⟩ := bind_eq_ok.1 h
    obtain ⟨u, hmatch, h⟩ := bind_eq_ok.1 h
    rw [ofExcept_eq] at hr
    exact hP.of_existence (registers_of_builder he) hr (of_outline hP sub hsub) hmatch h
  | junction kind operands =>
    cases operands with
    | nil => exact nomatch h
    | cons first rest =>
      rw [Builder.rebuild] at h
      obtain ⟨left, hleft, h⟩ := bind_eq_ok.1 h
      exact of_outlines hP kind (of_outline hP first hleft) rest h

/-- The operands of an outline are joined onto a filter that has the property. -/
theorem of_outlines (hP : Kept ctx P) {f : Filter} (kind : Junction) {left : Filter}
    (hleft : P left) (rest : List Outline)
    (h : ctx.builder.rebuildOnto kind left rest = .ok f) : P f := by
  cases rest with
  | nil =>
    obtain rfl := Except.ok.inj h
    exact hleft
  | cons next rest =>
    rw [Builder.rebuildOnto] at h
    obtain ⟨right, hright, h⟩ := bind_eq_ok.1 h
    obtain ⟨joined, hjoined, h⟩ := bind_eq_ok.1 h
    have hkept := hP.combine hleft (of_outline hP next hright) hjoined
    exact of_outlines hP kind hkept rest h

end

end Kept

/-! ## Answers -/

/-- A request about filters in another form is about the same ones. -/
theorem Query.arguments_map {φ ψ : Type} (g : φ → ψ) (q : Query φ) :
    (q.map g).arguments = q.arguments.map g := by
  cases q <;> rfl

/-- Queries about filters with the property are answered with filters with the property. -/
theorem Kept.answer (hP : Kept ctx P) {q : Query Filter} {fs : List Filter}
    (hq : ∀ f ∈ q.arguments, P f) (h : ctx.answer q = .ok fs) : ∀ f ∈ fs, P f := by
  -- all requests but the split are answered with one filter
  have hone : ∀ {x : Except FilterError Filter}, (∀ {f}, x = .ok f → P f) →
      (do return [← x]) = Except.ok fs → ∀ f ∈ fs, P f := by
    intro x hx h
    obtain ⟨f, hf, h⟩ := bind_eq_ok.1 h
    obtain rfl := pure_eq_ok.1 h
    simpa using hx hf
  cases q with
  | parse entity text => exact hone hP.of_text h
  | comparison entity path op => exact hone hP.of_comparison h
  | constant entity path op v => exact hone hP.of_constant h
  | rowsAt entity path sub negated =>
    have hsub := hq sub (by simp [Query.arguments])
    exact hone (hP.of_rowsAt hsub) h
  | opened entity => exact hone hP.of_opened h
  | closed entity => exact hone hP.of_closed h
  | combine kind left right =>
    have hl := hq left (by simp [Query.arguments])
    have hr := hq right (by simp [Query.arguments])
    exact hone (hP.combine hl hr) h
  | complement f =>
    have hf := hq f (by simp [Query.arguments])
    obtain rfl := Except.ok.inj h
    simpa using hP.complement hf
  | bind f =>
    have hf := hq f (by simp [Query.arguments])
    obtain rfl := Except.ok.inj h
    simpa using hP.bind hf
  | optimize f =>
    have hf := hq f (by simp [Query.arguments])
    exact hone (hP.optimize hf) h
  | normalForm outer f =>
    have hf := hq f (by simp [Query.arguments])
    exact hone (hP.normalForm hf) h
  | split outer f =>
    have hf := hq f (by simp [Query.arguments])
    exact fun g hg => (hP.split hf h g hg).2
  | rebuild outline => exact hone (hP.of_outline outline) h
  | decode bytes =>
    refine hone (fun hf => ?_) h
    obtain ⟨outline, -, hf⟩ := bind_eq_ok.1 hf
    exact hP.of_outline outline hf

end RowFilter
