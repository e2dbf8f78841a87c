import Mathlib.Tactic.MkIffOfInductiveProp
import RowFilter.Proofs.Sessions
import RowFilter.Proofs.Tiling
import RowFilter.Proofs.Wording

/-!
# What resolves, and what is refused

The names in front of a segment lead, over relations, to the entity whose property the segment
names. Segments resolve exactly if each of them fits where it stands: every one but the last over a
relation to at most one row, the last as its use demands, and a mark on relations only. Otherwise
the first that does not fit is reported. As a schema is closed under its relations, nothing else can
go wrong.

The chain that segments resolve to is found again when its text is read, unless the scan gives up
at a property whose name is a single character outside ASCII.
-/

namespace RowFilter

open RowFilter.Grammar RowFilter.Text

variable {schema : Schema} {e : Entity} {use : ChainUse} {text : String}

/-! ## Segments that fit -/

namespace Segment

/-- The segment may stand over the property, at the end of a chain for the use or in front of it. -/
@[mk_iff]
structure Suits (s : Segment) (p : Property) (use : ChainUse) (last : Bool) : Prop where
  marked : s.outer = true → p.kind.isRelation = true
  joined : last = false → ∃ target, p.kind = .relation target .toOne
  compared : last = true → use = .comparison → s.outer = false ∧ ∃ kind, p.kind = .scalar kind
  tested : last = true → use = .existence → ∃ target, p.kind = .relation target .toMany

/-- What keeps the segment from standing over the property. -/
def flaw? (s : Segment) (p : Property) (use : ChainUse) (last : Bool) : Option Flaw :=
  if last then s.finalFlaw? p use else s.joinFlaw? p

/-- There is no flaw just if the property suits its place. -/
theorem flaw?_eq_none_iff {s : Segment} {p : Property} {last : Bool} :
    s.flaw? p use last = none ↔ s.Suits p use last := by
  rw [suits_iff]
  unfold flaw? finalFlaw? joinFlaw?
  cases p.kind with
  | scalar kind =>
    cases s.outer <;> cases last <;> cases use <;>
      simp [PropertyKind.isRelation, PropertyKind.cardinality?]
  | relation target cardinality =>
    cases s.outer <;> cases last <;> cases use <;> cases cardinality <;>
      simp [PropertyKind.isRelation, PropertyKind.cardinality?]

/-- The segment names a property of the entity that it may stand over. -/
def Fits (s : Segment) (e : Entity) (use : ChainUse) (last : Bool) : Prop :=
  ∃ p, e.property? s.name = some p ∧ s.Suits p use last

/-- What keeps the segment from fitting the entity. -/
def misfit? (s : Segment) (e : Entity) (use : ChainUse) (last : Bool) : Option Flaw :=
  match e.property? s.name with
  | none => some (.unknownProperty e.name s.name)
  | some p => s.flaw? p use last

/-- There is no misfit just if the segment fits. -/
theorem misfit?_eq_none_iff {s : Segment} {last : Bool} :
    s.misfit? e use last = none ↔ s.Fits e use last := by
  unfold misfit? Fits
  cases e.property? s.name with
  | none => simp
  | some p => simp [flaw?_eq_none_iff]

end Segment

namespace Schema

/-- The entity that the segments lead to, each over the relation that it names. -/
def reach? (schema : Schema) : Entity → List Segment → Option Entity
  | e, [] => some e
  | e, s :: rest => do
    let p ← e.property? s.name
    let target ← p.kind.target?
    let next ← schema.find? target
    schema.reach? next rest

/-- The segment between the others fits the entity that those in front of it lead to. -/
def FitsAt (schema : Schema) (e : Entity) (use : ChainUse) (before : List Segment) (s : Segment)
    (behind : List Segment) : Prop :=
  ∃ reached, schema.reach? e before = some reached ∧ s.Fits reached use behind.isEmpty

/-! ## Steps of a walk -/

variable {s s' : Segment} {p : Property} {joins : List Hop} {rest : List Segment}

/-- Following a property of the schema never fails. -/
theorem Registers.follow_eq (he : schema.Registers e) {name : String}
    (hp : e.property? name = some p) :
    schema.follow p = .ok (p.kind.target?.bind schema.find?) := by
  unfold follow
  cases htarget : p.kind.target? with
  | none => rfl
  | some target =>
    obtain ⟨next, hnext⟩ :=
      schema.exists_find?_target (find?_mem he) (Entity.property?_mem hp) htarget
    simp only [Schema.entity, hnext, Option.bind_some]

/-- A property without a flaw is found. -/
theorem propertyAt_suits {last : Bool} (hp : e.property? s.name = some p)
    (hs : s.Suits p use last) : propertyAt e s text (s.flaw? · use last) = .ok p := by
  unfold propertyAt
  rw [hp]
  simp only [Segment.flaw?_eq_none_iff.2 hs]

/-- A segment that does not fit is refused with its place and for its first fault. -/
theorem propertyAt_misfit {last : Bool} {flaw : Flaw} (h : s.misfit? e use last = some flaw) :
    propertyAt e s text (s.flaw? · use last) = .error (.malformed flaw s.span text) := by
  unfold Segment.misfit? at h
  unfold propertyAt
  cases hp : e.property? s.name with
  | none =>
    rw [hp] at h
    obtain rfl := Option.some.inj h
    rfl
  | some p =>
    rw [hp] at h
    have hflaw : s.flaw? p use last = some flaw := h
    simp only [hflaw]

/-- The walk stops at a segment that does not fit. -/
theorem resolveFrom_misfit {flaw : Flaw} (h : s.misfit? e use rest.isEmpty = some flaw) :
    schema.resolveFrom use text e joins (s :: rest) = .error (.malformed flaw s.span text) := by
  have hp : propertyAt e s text (s.flaw? · use rest.isEmpty) = _ := propertyAt_misfit h
  cases rest with
  | nil => exact bind_eq_error.2 (.inl hp)
  | cons s' rest => exact bind_eq_error.2 (.inl hp)

/-- The walk ends over the last segment. -/
theorem Registers.resolveFrom_last (he : schema.Registers e) (hp : e.property? s.name = some p)
    (hs : s.Suits p use true) :
    schema.resolveFrom use text e joins [s] =
      .ok ⟨⟨joins.reverse, ⟨p, s.outer⟩⟩, p.kind.target?.bind schema.find?⟩ := by
  have hp' : propertyAt e s text (s.finalFlaw? · use) = .ok p := propertyAt_suits hp hs
  exact bind_eq_ok.2 ⟨p, hp', bind_eq_ok.2 ⟨_, he.follow_eq hp, rfl⟩⟩

/-- A join leads to an entity of the schema. -/
theorem Registers.exists_next (he : schema.Registers e) (hp : e.property? s.name = some p)
    (hs : s.Suits p use false) :
    ∃ next, schema.Registers next ∧ schema.follow p = .ok (some next) ∧
      ∀ before, schema.reach? e (s :: before) = schema.reach? next before := by
  obtain ⟨target, hkind⟩ := hs.joined rfl
  have htarget : p.kind.target? = some target := by
    rw [hkind]
    rfl
  obtain ⟨next, hnext⟩ :=
    schema.exists_find?_target (find?_mem he) (Entity.property?_mem hp) htarget
  refine ⟨next, registers_of_find? hnext, ?_, fun before => ?_⟩
  · rw [he.follow_eq hp, htarget, Option.bind_some, hnext]
  · simp [reach?, hp, htarget, hnext]

/-- The walk goes on from the entity that a join leads to. -/
theorem resolveFrom_join {next : Entity} (hp : e.property? s.name = some p)
    (hs : s.Suits p use false) (hfollow : schema.follow p = .ok (some next)) (hrest : rest ≠ []) :
    schema.resolveFrom use text e joins (s :: rest) =
      schema.resolveFrom use text next (⟨p, s.outer⟩ :: joins) rest := by
  obtain ⟨s', rest, rfl⟩ := List.exists_cons_of_ne_nil hrest
  have hp' : propertyAt e s text s.joinFlaw? = .ok p := propertyAt_suits hp hs
  rw [resolveFrom, hp']
  show schema.follow p >>= _ = _
  rw [hfollow]
  rfl

/-! ## Runs of a walk -/

/-- All the segments fit where they stand, with those behind to follow them. -/
def AllFit (schema : Schema) (e : Entity) (use : ChainUse) (segs behind : List Segment) : Prop :=
  ∀ front s more, segs = front ++ s :: more → schema.FitsAt e use front s (more ++ behind)

theorem allFit_nil {behind : List Segment} : schema.AllFit e use [] behind := by
  intro front s more h
  simp at h

/-- The first of fitting segments fits where the chain starts. -/
theorem AllFit.head {behind : List Segment} (h : schema.AllFit e use (s :: rest) behind) :
    s.Fits e use (rest ++ behind).isEmpty := by
  obtain ⟨_, hstart, hfits⟩ := h [] s rest rfl
  obtain rfl := Option.some.inj hstart
  exact hfits

/-- Behind a join, what fits is what fits from the entity it leads to. -/
theorem allFit_cons {next : Entity} {behind : List Segment}
    (hreach : ∀ before, schema.reach? e (s :: before) = schema.reach? next before) :
    schema.AllFit e use (s :: rest) behind ↔
      s.Fits e use (rest ++ behind).isEmpty ∧ schema.AllFit next use rest behind := by
  constructor
  · intro h
    refine ⟨h.head, fun front t more hrest => ?_⟩
    obtain ⟨reached, hto, hfits⟩ := h (s :: front) t more (by rw [hrest, List.cons_append])
    exact ⟨reached, (hreach front).symm.trans hto, hfits⟩
  · rintro ⟨hhead, hall⟩ front t more hsegs
    cases front with
    | nil =>
      obtain ⟨rfl, rfl⟩ := List.cons.inj hsegs
      exact ⟨e, rfl, hhead⟩
    | cons t' front =>
      obtain ⟨rfl, hrest⟩ := List.cons.inj hsegs
      obtain ⟨reached, hto, hfits⟩ := hall front t more hrest
      exact ⟨reached, (hreach front).trans hto, hfits⟩

/-- A last segment that fits is all there is to fit. -/
theorem allFit_singleton (h : s.Fits e use true) : schema.AllFit e use [s] [] := by
  intro front t more hsegs
  cases front with
  | nil =>
    obtain ⟨rfl, rfl⟩ := List.cons.inj hsegs
    exact ⟨e, rfl, h⟩
  | cons t' front => simp at hsegs

/-- Either all segments fit, or there is a first one that does not. -/
theorem Registers.allFit_or_exists_misfit (he : schema.Registers e) (use : ChainUse)
    (segs : List Segment) :
    schema.AllFit e use segs [] ∨
      ∃ before s behind reached flaw, segs = before ++ s :: behind ∧
        schema.AllFit e use before (s :: behind) ∧ schema.reach? e before = some reached ∧
          s.misfit? reached use behind.isEmpty = some flaw := by
  induction segs generalizing e with
  | nil => exact .inl allFit_nil
  | cons s rest ih =>
    cases hflaw : s.misfit? e use rest.isEmpty with
    | some flaw => exact .inr ⟨[], s, rest, e, flaw, rfl, allFit_nil, rfl, hflaw⟩
    | none =>
      have hfits := Segment.misfit?_eq_none_iff.1 hflaw
      by_cases hrest : rest = []
      · subst hrest
        exact .inl (allFit_singleton hfits)
      · have hjoin := List.isEmpty_eq_false_iff.2 hrest
        rw [hjoin] at hfits
        obtain ⟨p, hp, hs⟩ := hfits
        obtain ⟨next, hnext, -, hreach⟩ := he.exists_next hp hs
        rcases ih hnext with hall | ⟨before, t, behind, reached, flaw, rfl, hall, hto, hmisfit⟩
        · refine .inl ((allFit_cons hreach).2 ⟨?_, hall⟩)
          rw [List.append_nil, hjoin]
          exact ⟨p, hp, hs⟩
        · refine .inr ⟨s :: before, t, behind, reached, flaw, rfl,
            (allFit_cons hreach).2 ⟨?_, hall⟩,
            (hreach before).trans hto, hmisfit⟩
          rw [hjoin]
          exact ⟨p, hp, hs⟩

/-- The first segment that does not fit is what the walk stops at. -/
theorem Registers.resolveFrom_stops {before behind : List Segment} {reached : Entity} {flaw : Flaw}
    (he : schema.Registers e) (hfits : schema.AllFit e use before (s :: behind))
    (hreach : schema.reach? e before = some reached)
    (hflaw : s.misfit? reached use behind.isEmpty = some flaw) :
    schema.resolveFrom use text e joins (before ++ s :: behind) =
      .error (.malformed flaw s.span text) := by
  induction before generalizing e joins with
  | nil =>
    obtain rfl := Option.some.inj hreach
    exact resolveFrom_misfit hflaw
  | cons t before ih =>
    have hrest : before ++ s :: behind ≠ [] := by simp
    -- the segment in front is a join, for others follow it
    obtain ⟨p, hp, ht⟩ := hfits.head
    rw [List.isEmpty_eq_false_iff.2 hrest] at ht
    obtain ⟨next, hnext, hfollow, hreach'⟩ := he.exists_next hp ht
    rw [List.cons_append, resolveFrom_join hp ht hfollow hrest]
    exact ih hnext ((allFit_cons hreach').1 hfits).2 ((hreach' before).symm.trans hreach)

/-- The hops go over the properties that the segments name, each of the entity that those in front
of it lead to, and are marked as the segments are. -/
def HopsOver (schema : Schema) (e : Entity) (segs : List Segment) (hops : List Hop) : Prop :=
  hops.length = segs.length ∧ ∀ before s behind, segs = before ++ s :: behind →
    ∃ reached p, schema.reach? e before = some reached ∧ reached.property? s.name = some p ∧
      p.owner = reached.name ∧ hops[before.length]? = some ⟨p, s.outer⟩

theorem hopsOver_singleton (hp : e.property? s.name = some p) :
    schema.HopsOver e [s] [⟨p, s.outer⟩] := by
  refine ⟨rfl, fun before t behind hsegs => ?_⟩
  cases before with
  | nil =>
    obtain ⟨rfl, -⟩ := List.cons.inj hsegs
    exact ⟨e, p, rfl, hp, Entity.property?_owner hp, rfl⟩
  | cons t' before => simp at hsegs

/-- A segment in front goes over its property, and the others go on from the entity that it leads
to. -/
theorem hopsOver_cons {next : Entity} {hops : List Hop} (hp : e.property? s.name = some p)
    (hreach : ∀ before, schema.reach? e (s :: before) = schema.reach? next before)
    (h : schema.HopsOver next rest hops) :
    schema.HopsOver e (s :: rest) (⟨p, s.outer⟩ :: hops) := by
  refine ⟨by simp [h.1], fun before t behind hsegs => ?_⟩
  cases before with
  | nil =>
    obtain ⟨rfl, -⟩ := List.cons.inj hsegs
    exact ⟨e, p, rfl, hp, Entity.property?_owner hp, rfl⟩
  | cons t' before =>
    obtain ⟨rfl, hrest⟩ := List.cons.inj hsegs
    rw [hreach]
    exact h.2 before t behind hrest

/-- Segments that all fit are walked over to the end. -/
theorem Registers.resolveFrom_arrives {segs : List Segment} (he : schema.Registers e)
    (hne : segs ≠ []) (hfits : schema.AllFit e use segs []) :
    ∃ r hops, schema.resolveFrom use text e joins segs = .ok r ∧
      r.chain.hops = joins.reverse ++ hops ∧ schema.HopsOver e segs hops ∧
        r.target = r.chain.final.property.kind.target?.bind schema.find? := by
  induction segs generalizing e joins with
  | nil => exact absurd rfl hne
  | cons s rest ih =>
    obtain ⟨p, hp, hs⟩ := hfits.head
    by_cases hrest : rest = []
    · subst hrest
      exact ⟨_, [⟨p, s.outer⟩], he.resolveFrom_last hp hs, rfl, hopsOver_singleton hp, rfl⟩
    · rw [List.append_nil, List.isEmpty_eq_false_iff.2 hrest] at hs
      obtain ⟨next, hnext, hfollow, hreach⟩ := he.exists_next hp hs
      have hfits' : schema.AllFit next use rest [] := ((allFit_cons hreach).1 hfits).2
      obtain ⟨r, hops, hr, hhops, hover, htarget⟩ :=
        @ih next (⟨p, s.outer⟩ :: joins) hnext hrest hfits'
      refine ⟨r, ⟨p, s.outer⟩ :: hops, ?_, ?_, hopsOver_cons hp hreach hover, htarget⟩
      · rw [resolveFrom_join hp hs hfollow hrest, hr]
      · rw [hhops, List.reverse_cons, List.append_assoc]
        rfl

end Schema

/-! ## Reading chains back -/

namespace Grammar

variable {pos : Nat} {read : List Token} {rest : List Char}

/-- Signs are passed over, for they are no lone names. -/
theorem scanFrom_sign {l : Lexeme} (hl : ∀ s, l ≠ .name s) (h : l.Scanned)
    (hends : l.EndsBefore rest) :
    scanFrom text 0 pos read (l.spelling.toList ++ rest) =
      scanFrom text 0 (pos + byteLength l.spelling.toList)
        (⟨l, ⟨pos, pos + byteLength l.spelling.toList⟩⟩ :: read) rest :=
  scanFrom_word h hends fun ⟨s, _, hs, _⟩ => hl s hs

/-- A hop is passed over, unless its name is a lone one. -/
theorem scanFrom_hop {h : Hop} (hname : (Lexeme.name h.property.name).Scanned) (hrest : Ends rest) :
    ((Lexeme.name h.property.name).IsLone →
      scanFrom text 0 pos read (h.render.toList ++ rest) = .error .loneCharacter) ∧
    (¬ (Lexeme.name h.property.name).IsLone → ∃ pos' read',
      scanFrom text 0 pos read (h.render.toList ++ rest) = scanFrom text 0 pos' read' rest) := by
  unfold Hop.render
  cases h.outer with
  | false =>
    have hends : (Lexeme.name h.property.name).EndsBefore rest := fun d hd => (hrest d hd).1
    exact ⟨scanFrom_lone hname hends, fun hlone => ⟨_, _, scanFrom_word hname hends hlone⟩⟩
  | true =>
    -- the name stands between parentheses, which continue no name
    have hchars : ("(" ++ h.property.name ++ ")").toList ++ rest =
        Lexeme.leftParen.spelling.toList ++ ((Lexeme.name h.property.name).spelling.toList ++
          (Lexeme.rightParen.spelling.toList ++ rest)) := by
      simp only [String.toList_append, List.append_assoc]
      rfl
    have hends : (Lexeme.name h.property.name).EndsBefore
        (Lexeme.rightParen.spelling.toList ++ rest) :=
      fun d hd => (ends_rightParen rest d hd).1
    rw [if_pos rfl, hchars, scanFrom_sign (l := .leftParen) (by simp) trivial trivial]
    refine ⟨scanFrom_lone hname hends, fun hlone => ?_⟩
    rw [scanFrom_word hname hends hlone]
    exact ⟨_, _, scanFrom_sign (l := .rightParen) (by simp) trivial trivial⟩

/-- The scan fails at the first lone name among those of hops. -/
theorem scanFrom_hops_lone {h : Hop} {more : List Hop}
    (hnames : ∀ k ∈ h :: more, (Lexeme.name k.property.name).Scanned)
    (hlone : ∃ k ∈ h :: more, (Lexeme.name k.property.name).IsLone) :
    scanFrom text 0 pos read (".".intercalate ((h :: more).map Hop.render)).toList =
      .error .loneCharacter := by
  rw [String.toList_intercalate]
  induction more generalizing h pos read with
  | nil =>
    obtain ⟨k, hk, hlone⟩ := hlone
    obtain rfl := List.mem_singleton.1 hk
    have hstep : scanFrom text 0 pos read (k.render.toList ++ []) = _ :=
      (scanFrom_hop (hnames k hk) ends_nil).1 hlone
    simpa using hstep
  | cons k more ih =>
    have hchars : ".".toList.intercalate (((h :: k :: more).map Hop.render).map String.toList) =
        h.render.toList ++ (Lexeme.dot.spelling.toList ++
          ".".toList.intercalate (((k :: more).map Hop.render).map String.toList)) := by
      simp [List.intercalate_cons_cons, Lexeme.spelling]
    have hends : Ends (Lexeme.dot.spelling.toList ++
        ".".toList.intercalate (((k :: more).map Hop.render).map String.toList)) := ends_dot _
    rw [hchars]
    by_cases hfirst : (Lexeme.name h.property.name).IsLone
    · exact (scanFrom_hop (hnames h (by simp)) hends).1 hfirst
    · obtain ⟨pos', read', hstep⟩ := (scanFrom_hop (hnames h (by simp)) hends).2 hfirst
      obtain ⟨k', hk', hlone'⟩ := hlone
      -- the lone name is behind the first dot
      have hmore : k' ∈ k :: more := by
        rcases List.mem_cons.1 hk' with rfl | hk'
        · exact absurd hlone' hfirst
        · exact hk'
      rw [hstep, scanFrom_sign (l := .dot) (by simp) trivial trivial]
      exact ih (fun j hj => hnames j (List.mem_cons_of_mem h hj)) ⟨k', hmore, hlone'⟩

end Grammar

namespace Schema

/-- A chain that segments resolve to is what its path resolves to by itself. -/
theorem Registers.resolve?_path {segs : List Segment} {r : Resolved} (he : schema.Registers e)
    (h : schema.resolve e segs use text = .ok r)
    (htarget : r.target = r.chain.final.property.kind.target?.bind schema.find?)
    (hmarked : r.chain.final.outer = true → r.chain.final.property.kind.isRelation = true) :
    r.chain.path.resolve? schema e .standalone = some r := by
  obtain ⟨hroot, hconnected, -⟩ := resolve_spec h
  have hdeclared := resolve_declared he h
  obtain ⟨e', he', hp⟩ := hdeclared r.chain.final.property (by simp [Chain.hops])
  refine Chain.resolve?_path he hroot hconnected hdeclared ?_ fun s hs => ?_
  · rw [(registers_of_find? he').follow_eq hp, ← htarget]
  · unfold Segment.finalFlaw?
    rw [hs]
    cases houter : r.chain.final.outer with
    | false => simp
    | true => simp [hmarked houter]

end Schema

namespace Context

variable {ctx : Context} {name : String} {c : Chain}

/-- A text whose words are those of a path is read as what the path resolves to. -/
theorem parseChain_of_path {path : Path} {r : Resolved} (he : ctx.entity name = .ok e)
    (hwords : wordsFrom 0 text.toList = some path.lexemes)
    (hpath : path.resolve? ctx.schema e .standalone = some r) :
    ctx.parseChain name text = .ok r.chain := by
  obtain ⟨tokens, hscan, htokens⟩ := scan_eq_ok_iff.2 hwords
  obtain ⟨segs, hlt, hread, hnames⟩ :=
    @segments_complete text _ _ _ (Begins.all_iff.2 htokens) fun t ht => nomatch ht
  have hchain : ctx.schema.chainFor e .standalone text = .ok r :=
    bind_eq_ok.2 ⟨tokens, hscan, bind_eq_ok.2 ⟨_, hread, bind_eq_ok.2 ⟨(), rfl,
      (resolve_eq_ok hnames).2 hpath⟩⟩⟩
  exact bind_eq_ok.2 ⟨e, he, bind_eq_ok.2 ⟨r, hchain, rfl⟩⟩

/-- A text in which a property has a lone name is not read at all. -/
theorem parseChain_lone (he : ctx.entity name = .ok e)
    (hnames : ∀ h ∈ c.hops, (Lexeme.name h.property.name).Scanned)
    (hlone : ∃ h ∈ c.hops, (Lexeme.name h.property.name).IsLone) :
    ctx.parseChain name c.render = .error .loneCharacter := by
  obtain ⟨h, more, hhops⟩ := List.exists_cons_of_ne_nil c.hops_ne_nil
  rw [hhops] at hnames hlone
  have hscan : scan c.render = .error .loneCharacter := by
    have hall :
        scanFrom c.render 0 0 [] (".".intercalate ((h :: more).map Hop.render)).toList = _ :=
      scanFrom_hops_lone hnames hlone
    rw [← hhops] at hall
    exact hall
  have hchain : ctx.schema.chainFor e .standalone c.render = .error .loneCharacter :=
    bind_eq_error.2 (.inl hscan)
  exact bind_eq_error.2 (.inr ⟨e, he, bind_eq_error.2 (.inl hchain)⟩)

end Context

/-! ## Segments and their chain -/

/-- The segment at the end is one that may stand over the property the chain ends in. -/
theorem Schema.HopsOver.exists_last {segs : List Segment} {c : Chain}
    (h : schema.HopsOver e segs c.hops) (hfits : schema.AllFit e use segs []) :
    ∃ s : Segment, s.outer = c.final.outer ∧ s.Suits c.final.property use true := by
  have hlength := h.1
  rw [c.length_hops, Chain.length] at hlength
  have hne : segs ≠ [] := by
    rintro rfl
    simp at hlength
  obtain ⟨init, s, hsegs⟩ := (List.eq_nil_or_concat segs).resolve_left hne
  rw [List.concat_eq_append] at hsegs
  obtain ⟨reached, hreach, p, hp, hs⟩ := hfits init s [] hsegs
  obtain ⟨reached', p', hreach', hp', -, hhop⟩ := h.2 init s [] hsegs
  obtain rfl := Option.some.inj (hreach.symm.trans hreach')
  obtain rfl := Option.some.inj (hp.symm.trans hp')
  have hinit : init.length = c.joins.length := by
    rw [hsegs, List.length_append, List.length_singleton] at hlength
    omega
  have hfinal : c.hops[init.length]? = some c.final := by
    simp [Chain.hops, hinit]
  rw [hhop] at hfinal
  obtain hfinal := Option.some.inj hfinal
  exact ⟨s, by rw [← hfinal], by rw [← hfinal]; exact hs⟩

namespace Schema

variable {segs before behind : List Segment} {s : Segment} {reached : Entity} {flaw : Flaw}
  {r : Resolved}

/-- If all segments fit, there is a chain over the properties they name. -/
theorem Registers.resolve_of_allFit (he : schema.Registers e) (hne : segs ≠ [])
    (hfits : schema.AllFit e use segs []) :
    ∃ r, schema.resolve e segs use text = .ok r ∧ schema.HopsOver e segs r.chain.hops ∧
      r.target = r.chain.final.property.kind.target?.bind schema.find? := by
  obtain ⟨r, hops, hr, hhops, hover, htarget⟩ :=
    @Registers.resolveFrom_arrives schema e use text [] segs he hne hfits
  rw [List.reverse_nil, List.nil_append] at hhops
  exact ⟨r, hr, hhops ▸ hover, htarget⟩

/-- The first segment that does not fit is the one that is reported. -/
theorem Registers.resolve_of_misfit (he : schema.Registers e)
    (hfits : schema.AllFit e use before (s :: behind))
    (hreach : schema.reach? e before = some reached)
    (hflaw : s.misfit? reached use behind.isEmpty = some flaw) :
    schema.resolve e (before ++ s :: behind) use text = .error (.malformed flaw s.span text) :=
  he.resolveFrom_stops hfits hreach hflaw

/-- What resolves fits, and the chain goes over it. -/
theorem Registers.allFit_of_resolve (he : schema.Registers e)
    (hr : schema.resolve e segs use text = .ok r) :
    segs ≠ [] ∧ schema.AllFit e use segs [] ∧ schema.HopsOver e segs r.chain.hops ∧
      r.target = r.chain.final.property.kind.target?.bind schema.find? := by
  have hne : segs ≠ [] := by
    rintro rfl
    exact nomatch hr
  rcases he.allFit_or_exists_misfit use segs with hall | ⟨before, s, behind, reached, flaw, rfl,
    hall, hreach, hflaw⟩
  · obtain ⟨r', hr', hover, htarget⟩ := he.resolve_of_allFit hne hall
    obtain rfl := Except.ok.inj (hr.symm.trans hr')
    exact ⟨hne, hall, hover, htarget⟩
  · rw [he.resolve_of_misfit hall hreach hflaw] at hr
    exact nomatch hr

/-- A relation at the end of a chain leads to an entity of the schema. -/
theorem Registers.target_isSome (he : schema.Registers e)
    (hr : schema.resolve e segs use text = .ok r)
    (htarget : r.target = r.chain.final.property.kind.target?.bind schema.find?) :
    r.target.isSome = r.chain.final.property.kind.isRelation := by
  obtain ⟨e', he', hp⟩ := resolve_declared he hr r.chain.final.property (by simp [Chain.hops])
  rw [htarget]
  cases hkind : r.chain.final.property.kind with
  | scalar kind => rfl
  | relation target cardinality =>
    obtain ⟨next, hnext⟩ := schema.exists_find?_target (find?_mem he') (Entity.property?_mem hp)
      (by rw [hkind]; rfl)
    simp [PropertyKind.target?, PropertyKind.isRelation, hnext]

end Schema

/-- What comes of segments that are resolved from the entity for the use, and of the chain that is
found. -/
structure Context.ResolvesExactly (ctx : Context) (e : Entity) (segs : List Segment)
    (use : ChainUse) (text : String) : Prop where
  /-- A chain is found exactly if there are segments and all of them fit. -/
  succeeds_iff : (∃ r, ctx.schema.resolve e segs use text = .ok r) ↔
    segs ≠ [] ∧ ctx.schema.AllFit e use segs []
  /-- It has a hop for each of them. -/
  hops_over : ∀ r, ctx.schema.resolve e segs use text = .ok r →
    ctx.schema.HopsOver e segs r.chain.hops
  /-- It leads to an entity exactly if it ends in a relation, and then to the entity it names. -/
  target_eq : ∀ r, ctx.schema.resolve e segs use text = .ok r →
    r.target.isSome = r.chain.final.property.kind.isRelation ∧
      r.target = r.chain.final.property.kind.target?.bind ctx.schema.find?
  /-- Otherwise the first segment that does not fit is reported with its bytes. -/
  fails_iff : ∀ err, ctx.schema.resolve e segs use text = .error err ↔
    segs = [] ∧ err = .malformed .noProperty .zero text ∨
      ∃ before s behind reached flaw, segs = before ++ s :: behind ∧
        ctx.schema.AllFit e use before (s :: behind) ∧
        ctx.schema.reach? e before = some reached ∧
        s.misfit? reached use behind.isEmpty = some flaw ∧ err = .malformed flaw s.span text
  /-- Where the properties have names for names, the text of the chain is read as the chain, if
  none of the names is a lone one. -/
  reads_back : ∀ r, ctx.schema.resolve e segs use text = .ok r →
    (∀ h ∈ r.chain.hops, (Lexeme.name h.property.name).Scanned) →
      ((∀ h ∈ r.chain.hops, ¬ (Lexeme.name h.property.name).IsLone) →
        ctx.parseChain e.name r.chain.render = .ok r.chain) ∧
      ((∃ h ∈ r.chain.hops, (Lexeme.name h.property.name).IsLone) →
        ctx.parseChain e.name r.chain.render = .error .loneCharacter)

/-- Names over an entity of the schema resolve just if each fits the place it stands at, to the
one chain over the properties they name; otherwise the first that does not fit is reported where
it stands. -/
theorem Context.resolves_exactly {ctx : Context} (he : ctx.schema.Registers e)
    (segs : List Segment) (use : ChainUse) (text : String) :
    ctx.ResolvesExactly e segs use text := by
  constructor
  case succeeds_iff =>
    constructor
    · rintro ⟨r, hr⟩
      obtain ⟨hne, hall, -⟩ := he.allFit_of_resolve hr
      exact ⟨hne, hall⟩
    · rintro ⟨hne, hall⟩
      obtain ⟨r, hr, -⟩ := he.resolve_of_allFit hne hall
      exact ⟨r, hr⟩
  case hops_over =>
    intro r hr
    obtain ⟨-, -, hover, -⟩ := he.allFit_of_resolve hr
    exact hover
  case target_eq =>
    intro r hr
    obtain ⟨-, -, -, htarget⟩ := he.allFit_of_resolve hr
    exact ⟨he.target_isSome hr htarget, htarget⟩
  case fails_iff =>
    intro err
    constructor
    · intro herr
      by_cases hne : segs = []
      · subst hne
        exact .inl ⟨rfl, (Except.error.inj herr).symm⟩
      · rcases he.allFit_or_exists_misfit use segs with
          hall | ⟨before, s, behind, reached, flaw, rfl, hall, hreach, hflaw⟩
        · obtain ⟨r, hr, -⟩ := he.resolve_of_allFit hne hall
          rw [hr] at herr
          exact nomatch herr
        · rw [he.resolve_of_misfit hall hreach hflaw] at herr
          exact .inr ⟨before, s, behind, reached, flaw, rfl, hall, hreach, hflaw,
            (Except.error.inj herr).symm⟩
    · rintro (⟨rfl, rfl⟩ | ⟨before, s, behind, reached, flaw, rfl, hall, hreach, hflaw, rfl⟩)
      · rfl
      · exact he.resolve_of_misfit hall hreach hflaw
  case reads_back =>
    intro r hr hnames
    obtain ⟨-, hall, hover, htarget⟩ := he.allFit_of_resolve hr
    obtain ⟨e', hentity, he', hname⟩ := Context.entity_of_knows he.knows
    rw [Schema.Registers, hname] at he'
    obtain rfl := Option.some.inj (he.symm.trans he')
    refine ⟨fun hlone => ?_, Context.parseChain_lone hentity hnames⟩
    have hlegible : r.chain.Legible := fun h hh => isName_iff.2 ⟨hnames h hh, hlone h hh⟩
    have hwords : wordsFrom 0 r.chain.render.toList = some r.chain.path.lexemes := by
      rw [(Scans.chain hnames).wordsFrom_eq, Chain.words?, if_pos hlegible]
    obtain ⟨s, houter, hs⟩ := hover.exists_last hall
    have hpath := he.resolve?_path hr htarget (houter ▸ hs.marked)
    exact Context.parseChain_of_path hentity hwords hpath

namespace Context.Sample

open Pool.Sample

/-- The segments of the total of the order of a line, if it has one. -/
def outerTotal : List Segment :=
  [⟨"order", true, ⟨1, 6⟩⟩, ⟨"total", false, ⟨8, 13⟩⟩]

/-- The total of the order is found, and found again in the text of its chain; what stands behind
a total is not even looked at. -/
theorem resolves_outerTotal :
    (∃ r, context.schema.resolve line outerTotal .comparison "(order).total" = .ok r ∧
      r.target = none ∧ context.parseChain line.name r.chain.render = .ok r.chain) ∧
    ∀ s : Segment,
      context.schema.resolve order [⟨"total", false, ⟨0, 5⟩⟩, s] .comparison "total.x" =
        .error (.malformed (.scalarTraversed "total") ⟨0, 5⟩ "total.x") := by
  have hline : context.schema.Registers line := rfl
  have horder : context.schema.Registers order := rfl
  have hexact := Context.resolves_exactly hline outerTotal .comparison "(order).total"
  constructor
  · have hr : context.schema.resolve line outerTotal .comparison "(order).total" =
        .ok ⟨⟨[⟨⟨⟨"order", .relation "order" .toOne, false⟩, "line"⟩, true⟩],
          ⟨⟨⟨"total", .scalar .int, false⟩, "order"⟩, false⟩⟩, none⟩ := rfl
    refine ⟨_, hr, rfl, ?_⟩
    have hnames : ∀ h ∈ [Hop.mk ⟨⟨"order", .relation "order" .toOne, false⟩, "line"⟩ true,
        ⟨⟨⟨"total", .scalar .int, false⟩, "order"⟩, false⟩], IsName h.property.name := by
      decide +kernel
    exact (hexact.reads_back _ hr fun h hh => (isName_iff.1 (hnames h hh)).1).1
      fun h hh => (isName_iff.1 (hnames h hh)).2
  · intro s
    have hfails := (Context.resolves_exactly horder [⟨"total", false, ⟨0, 5⟩⟩, s] .comparison
      "total.x").fails_iff
    exact (hfails _).2 (.inr ⟨[], _, [s], order, _, rfl, Schema.allFit_nil, rfl, rfl, rfl⟩)

/-- Terms have a property that is named by a single letter outside ASCII. -/
def term : Entity :=
  ⟨"term", [⟨"é", .scalar .int, false⟩]⟩

/-- Terms in the standard configuration. -/
def terms : Context where
  schema :=
    { entities := [term]
      nodup_names := by decide
      nodup_fields := by decide
      targets_registered := by simp [term, PropertyKind.target?] }
  config := .standard

/-- The property resolves, and its name is formed as names are, but its text is not read. -/
theorem letter_not_read_back :
    ∃ r, terms.schema.resolve term [⟨"é", false, ⟨0, 2⟩⟩] .standalone "é" = .ok r ∧
      (∀ h ∈ r.chain.hops, (Lexeme.name h.property.name).Scanned) ∧ r.chain.render = "é" ∧
      terms.parseChain "term" "é" = .error .loneCharacter := by
  refine ⟨⟨⟨[], ⟨⟨⟨"é", .scalar .int, false⟩, "term"⟩, false⟩⟩, none⟩, rfl, fun h hh => ?_, rfl, ?_⟩
  · obtain rfl := List.mem_singleton.1 hh
    exact ⟨'é', [], rfl, by decide +kernel, fun _ hd => nomatch hd⟩
  · decide +kernel

end Context.Sample

end RowFilter
