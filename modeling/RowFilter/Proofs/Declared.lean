import RowFilter.Proofs.Shaping

/-!
# Names that resolve again

A filter may outlive what it was read from: its properties carry the names of their entities, and
the schema is only asked again when a text or an outline is read. Every property in a filter that
was built is the one the schema declares under that name, so the names of a chain resolve to the
chain itself.
-/

namespace RowFilter

open RowFilter.Grammar

variable {ctx : Context} {schema : Schema}

/-- The schema has an entity of that name. -/
def Schema.Knows (schema : Schema) (name : String) : Prop :=
  ∃ e, schema.find? name = some e

theorem Schema.Registers.knows {e : Entity} (h : schema.Registers e) : schema.Knows e.name :=
  ⟨e, h⟩

/-- An entity that the schema knows is found. -/
theorem Context.entity_of_knows {name : String} (h : ctx.schema.Knows name) :
    ∃ e, ctx.entity name = .ok e ∧ ctx.schema.Registers e ∧ e.name = name := by
  obtain ⟨e, he⟩ := h
  refine ⟨e, ?_, Schema.registers_of_find? he, Schema.find?_name he⟩
  unfold Context.entity Schema.lookup Schema.entity
  rw [he]

/-- The property is what the schema declares under its name. -/
def Property.DeclaredIn (schema : Schema) (p : Property) : Prop :=
  ∃ e, schema.find? p.owner = some e ∧ e.property? p.name = some p

/-- The properties that are passed are declared. -/
def Chain.DeclaredIn (schema : Schema) (c : Chain) : Prop :=
  ∀ p ∈ c.hops.map Hop.property, p.DeclaredIn schema

/-- Every entity and every property in the filter is declared. -/
def Filter.DeclaredIn (schema : Schema) : Filter → Prop
  | opened e => schema.Knows e
  | closed e => schema.Knows e
  | compare l => schema.Knows l.entity ∧ l.chain.DeclaredIn schema
  | existence e c _ sub => schema.Knows e ∧ c.DeclaredIn schema ∧ sub.DeclaredIn schema
  | junction e _ left right =>
    schema.Knows e ∧ left.DeclaredIn schema ∧ right.DeclaredIn schema

/-- A declared filter is over an entity of the schema. -/
theorem Filter.DeclaredIn.knows {f : Filter} (h : f.DeclaredIn schema) :
    schema.Knows f.entity := by
  cases f with
  | opened | closed => exact h
  | compare | existence | junction => exact h.1

/-! ## What resolves is declared -/

namespace Schema

variable {use : ChainUse} {text : String}

/-- A name that resolves is that of a property. -/
theorem propertyAt_property? {e : Entity} {s : Segment} {flaw? : Property → Option Flaw}
    {p : Property} (h : propertyAt e s text flaw? = .ok p) : e.property? s.name = some p := by
  unfold propertyAt at h
  split at h
  · exact nomatch h
  · next q hq =>
    split at h
    · exact nomatch h
    · obtain rfl := Except.ok.inj h
      exact hq

/-- What an entity of the schema calls by a name is declared. -/
theorem Registers.declaredIn {e : Entity} (he : schema.Registers e) {name : String} {p : Property}
    (h : e.property? name = some p) : p.DeclaredIn schema := by
  refine ⟨e, ?_, ?_⟩
  · rw [Entity.property?_owner h]
    exact he
  · rw [Entity.property?_name h]
    exact h

/-- A chain that resolves goes over declared properties; by induction on the names. -/
theorem resolveFrom_declared {e : Entity} {joins : List Hop} {segs : List Segment} {r : Resolved}
    (he : schema.Registers e) (hjoins : ∀ p ∈ joins.map Hop.property, p.DeclaredIn schema)
    (h : schema.resolveFrom use text e joins segs = .ok r) : r.chain.DeclaredIn schema := by
  induction segs generalizing e joins with
  | nil => exact nomatch h
  | cons s rest ih =>
    cases rest with
    | nil =>
      obtain ⟨p, hp, h⟩ := bind_eq_ok.1 h
      obtain ⟨target, -, h⟩ := bind_eq_ok.1 h
      obtain rfl := pure_eq_ok.1 h
      have hfinal : p.DeclaredIn schema := he.declaredIn (propertyAt_property? hp)
      intro q hq
      simp only [Chain.hops, List.map_append, List.map_reverse, List.mem_append,
        List.mem_reverse, List.map_cons, List.map_nil, List.mem_singleton] at hq
      rcases hq with hq | rfl
      · exact hjoins q hq
      · exact hfinal
    | cons s' rest =>
      obtain ⟨p, hp, h⟩ := bind_eq_ok.1 h
      obtain ⟨found, hfound, h⟩ := bind_eq_ok.1 h
      obtain ⟨target, hkind⟩ := joinFlaw?_none (propertyAt_eq_ok hp).2
      obtain ⟨next, rfl, -⟩ := follow_relation hkind hfound
      have hfirst : p.DeclaredIn schema := he.declaredIn (propertyAt_property? hp)
      -- the walk goes on from the entity the join leads to, with one join more
      refine ih (registers_of_follow hfound) ?_ h
      intro q hq
      rcases List.mem_cons.1 hq with rfl | hq
      · exact hfirst
      · exact hjoins q hq

theorem resolve_declared {e : Entity} {segs : List Segment} {r : Resolved}
    (he : schema.Registers e) (h : schema.resolve e segs use text = .ok r) :
    r.chain.DeclaredIn schema :=
  resolveFrom_declared he (by simp) h

end Schema

/-- Complementing changes no property. -/
theorem Filter.DeclaredIn.complement {f : Filter} (h : f.DeclaredIn schema) :
    f.complement.DeclaredIn schema := by
  induction f with
  | opened | closed | existence => exact h
  | compare l =>
    refine ⟨h.1, ?_⟩
    have hflip : l.complement.chain = l.chain.flipJoins := rfl
    rw [Chain.DeclaredIn, hflip, Chain.properties_flipJoins]
    exact h.2
  | junction e kind left right ihl ihr => exact ⟨h.1, ihl h.2.1, ihr h.2.2⟩

theorem Filter.DeclaredIn.number {f : Filter} (h : f.DeclaredIn schema) (counters : Counters) :
    (f.number counters).1.DeclaredIn schema := by
  induction f generalizing counters with
  | opened | closed => exact h
  | compare l =>
    obtain ⟨entity, shape, operand⟩ := l
    cases operand <;> exact h
  | existence e c negated sub ih => exact ⟨h.1, h.2.1, ih h.2.2 counters⟩
  | junction e kind left right ihl ihr => exact ⟨h.1, ihl h.2.1 _, ihr h.2.2 _⟩

/-- Filters in shape whose names are declared are all that can be built. -/
theorem declared_kept (ctx : Context) :
    Kept ctx fun f => f.Fits ctx f.entity ∧ f.DeclaredIn ctx.schema where
  opened he := ⟨(fits_kept ctx).opened he, he.knows⟩
  closed he := ⟨(fits_kept ctx).closed he, he.knows⟩
  unit h :=
    let hunit := (fits_kept ctx).unit h.1
    ⟨⟨hunit.1, h.2.knows⟩, hunit.2, h.2.knows⟩
  compare he hr hoperand :=
    ⟨(fits_kept ctx).compare he hr hoperand, he.knows, Schema.resolve_declared he hr⟩
  existence he hr htarget hname hclosed hsub hdepth :=
    ⟨(fits_kept ctx).existence he hr htarget hname hclosed hsub.1 hdepth, he.knows,
      Schema.resolve_declared he hr, hsub.2⟩
  junction hlp hrp hentity hl hr hdepth :=
    ⟨(fits_kept ctx).junction hlp hrp hentity hl.1 hr.1 hdepth, hl.2.knows, hl.2, hr.2⟩
  operands h :=
    let hfits := (fits_kept ctx).operands h.1
    ⟨⟨hfits.1.1, hfits.1.2, h.2.2.1⟩, hfits.2.1, hfits.2.2, h.2.2.2⟩
  sub h := ⟨(fits_kept ctx).sub h.1, h.2.2.2⟩
  within h hsub hentity hclosed hdepth :=
    ⟨(fits_kept ctx).within h.1 hsub.1 hentity hclosed hdepth, h.2.1, h.2.2.1, hsub.2⟩
  complement h := ⟨(fits_kept ctx).complement h.1, h.2.complement⟩
  number counters h := ⟨(fits_kept ctx).number counters h.1, h.2.number counters⟩

/-! ## What is declared resolves -/

namespace Schema

variable {use : ChainUse} {text : String}

/-- An entity of the schema calls what is declared for it by its name. -/
theorem Registers.property? {e : Entity} (he : schema.Registers e) {p : Property}
    (hp : p.DeclaredIn schema) (howner : p.owner = e.name) : e.property? p.name = some p := by
  obtain ⟨e', hfind, hname⟩ := hp
  rw [howner] at hfind
  obtain rfl : e = e' := Option.some.inj (he.symm.trans hfind)
  exact hname

/-- A declared relation leads to an entity of the schema. -/
theorem follow_declared {p : Property} (hp : p.DeclaredIn schema) {target : String}
    {cardinality : Cardinality} (hkind : p.kind = .relation target cardinality) :
    ∃ e, schema.follow p = .ok (some e) ∧ schema.Registers e ∧ e.name = target := by
  obtain ⟨e', hfind, hname⟩ := hp
  obtain ⟨e, he⟩ := schema.exists_find?_target (find?_mem hfind) (Entity.property?_mem hname)
    (by rw [hkind]; rfl)
  have hentity : schema.entity target = .ok e := by
    unfold Schema.entity
    rw [he]
  refine ⟨e, ?_, registers_of_find? he, find?_name he⟩
  unfold follow
  rw [hkind]
  simp only [PropertyKind.target?, hentity]

/-- A declared property is found by its name, if it has no flaw for its place. -/
theorem propertyAt_declared {e : Entity} (he : schema.Registers e) {p : Property}
    (hp : p.DeclaredIn schema) (howner : p.owner = e.name) {s : Segment} (hs : s.name = p.name)
    {flaw? : Property → Option Flaw} (hflaw : flaw? p = none) :
    propertyAt e s text flaw? = .ok p := by
  unfold propertyAt
  rw [hs, he.property? hp howner]
  simp only [hflaw]

/-- A relation to one row can be joined over. -/
theorem joinFlaw?_toOne {s : Segment} {p : Property} {target : String}
    (h : p.kind = .relation target .toOne) : s.joinFlaw? p = none := by
  simp [Segment.joinFlaw?, h, PropertyKind.isRelation, PropertyKind.cardinality?]

/-- The names of connected, declared hops resolve to these hops. -/
theorem resolveFrom_complete {e : Entity} {joins more : List Hop} {final : Hop}
    {segs : List Segment} {target : Option Entity} (he : schema.Registers e)
    (hdeclared : ∀ h ∈ more ++ [final], h.property.DeclaredIn schema)
    (hconnected : (more ++ [final]).IsChain Hop.LeadsTo)
    (hfirst : ∀ first ∈ (more ++ [final]).head?, first.property.owner = e.name)
    (hfollow : schema.follow final.property = .ok target)
    (hflaw : ∀ s : Segment, s.outer = final.outer → s.finalFlaw? final.property use = none)
    (hsegs : segs.map Segment.hop =
      (more ++ [final]).map fun h => ⟨h.property.name, h.outer⟩) :
    schema.resolveFrom use text e joins segs =
      .ok ⟨⟨joins.reverse ++ more, final⟩, target⟩ := by
  induction more generalizing e joins segs with
  | nil =>
    obtain ⟨s, rest, rfl, hs, hrest⟩ := List.map_eq_cons_iff.1 hsegs
    obtain rfl : rest = [] := List.map_eq_nil_iff.1 hrest
    obtain ⟨hname, houter⟩ := HopName.mk.inj hs
    have hp : propertyAt e s text (s.finalFlaw? · use) = .ok final.property :=
      propertyAt_declared he (hdeclared final (by simp)) (hfirst final rfl) hname (hflaw s houter)
    rw [resolveFrom]
    refine bind_eq_ok.2 ⟨_, hp, bind_eq_ok.2 ⟨target, hfollow, ?_⟩⟩
    rw [houter, List.append_nil]
    rfl
  | cons h more ih =>
    obtain ⟨s, rest, rfl, hs, hrest⟩ := List.map_eq_cons_iff.1 hsegs
    obtain ⟨hname, houter⟩ := HopName.mk.inj hs
    obtain ⟨next, hnext⟩ : ∃ next, (more ++ [final]).head? = some next := by
      cases more <;> exact ⟨_, rfl⟩
    obtain ⟨hleads, hconnected⟩ := List.isChain_cons.1 hconnected
    have hkind : h.property.kind = .relation next.property.owner .toOne := hleads next hnext
    have hdecl : h.property.DeclaredIn schema := hdeclared h (by simp)
    obtain ⟨e', hfollow', he', hname'⟩ := follow_declared hdecl hkind
    have hp : propertyAt e s text s.joinFlaw? = .ok h.property :=
      propertyAt_declared he hdecl (hfirst h rfl) hname (joinFlaw?_toOne hkind)
    -- the rest of the hops start at the entity this one leads to
    have hrec : schema.resolveFrom use text e' (h :: joins) rest =
        .ok ⟨⟨(h :: joins).reverse ++ more, final⟩, target⟩ := by
      refine ih he' (fun k hk => hdeclared k (by simp [hk])) hconnected ?_ hrest
      intro first hfirst
      obtain rfl := Option.some.inj (hnext.symm.trans hfirst)
      exact hname'.symm
    cases rest with
    | nil => cases more <;> simp at hrest
    | cons s' rest =>
      rw [resolveFrom]
      refine bind_eq_ok.2 ⟨_, hp, bind_eq_ok.2 ⟨some e', hfollow', ?_⟩⟩
      rw [houter]
      show schema.resolveFrom use text e' (h :: joins) (s' :: rest) = _
      rw [hrec, List.reverse_cons, List.append_assoc]
      rfl

end Schema

/-! ## Paths of chains -/

namespace Chain

theorem names_ne_nil (c : Chain) : c.names ≠ [] := by
  simp [names, c.hops_ne_nil]

/-- The path that spells the chain. -/
def path (c : Chain) : Path :=
  ⟨c.names.head c.names_ne_nil, c.names.tail⟩

/-- A chain and its path have the same names. -/
@[simp] theorem names_path (c : Chain) : c.path.names = c.names :=
  List.cons_head_tail c.names_ne_nil

/-- The first hop is over the entity that the chain starts from. -/
theorem head?_hops (c : Chain) : ∀ first ∈ c.hops.head?, first.property.owner = c.root := by
  obtain ⟨_ | ⟨h, t⟩, f⟩ := c <;> simp [hops, root]

/-- A chain that is declared is what its path resolves to. -/
theorem resolve?_path {c : Chain} {e : Entity} {use : ChainUse} {target : Option Entity}
    (he : schema.Registers e) (hroot : c.root = e.name) (hconnected : c.Connected)
    (hdeclared : c.DeclaredIn schema) (hfollow : schema.follow c.final.property = .ok target)
    (hflaw : ∀ s : Segment, s.outer = c.final.outer → s.finalFlaw? c.final.property use = none) :
    c.path.resolve? schema e use = some ⟨c, target⟩ := by
  have hsegs : (HopName.segmentsFrom 0 c.names).map Segment.hop = c.path.names := by
    rw [HopName.map_hop_segmentsFrom, names_path]
  have hhops : ∀ h ∈ c.joins ++ [c.final], h.property.DeclaredIn schema :=
    fun h hh => hdeclared _ (List.mem_map_of_mem hh)
  have hresolve := @resolve_eq_ok schema "" e _ _ use ⟨c, target⟩ hsegs
  refine hresolve.1 ?_
  refine Schema.resolveFrom_complete he hhops hconnected ?_ hfollow hflaw ?_
  · intro first hfirst
    rw [← hroot]
    exact c.head?_hops first hfirst
  · rw [hsegs, names_path]
    rfl

end Chain

/-- The path of a comparison leads to what it compares. -/
theorem Leaf.InShape.resolve?_path {l : Leaf} {e : Entity} (h : l.InShape)
    (he : schema.Registers e) (hentity : l.entity = e.name)
    (hdeclared : l.chain.DeclaredIn schema) :
    l.chain.path.resolve? schema e .comparison = some ⟨l.chain, none⟩ := by
  obtain ⟨kind, hkind⟩ := h.scalar
  refine Chain.resolve?_path he (h.root.trans hentity) h.connected hdeclared ?_ ?_
  · simp [Schema.follow, hkind, PropertyKind.target?]
  · intro s hs
    simp [Segment.finalFlaw?, hs, h.inner, hkind, PropertyKind.cardinality?]

/-- The path of an existence test leads to the entity of the filter inside. -/
theorem Chain.resolve?_path_existence {c : Chain} {e : Entity} {target : String}
    (he : schema.Registers e) (hroot : c.root = e.name) (hconnected : c.Connected)
    (hkind : c.final.property.kind = .relation target .toMany)
    (hdeclared : c.DeclaredIn schema) :
    ∃ e', schema.Registers e' ∧ e'.name = target ∧
      c.path.resolve? schema e .existence = some ⟨c, some e'⟩ := by
  have hfinal : c.final.property.DeclaredIn schema := hdeclared _ (by simp [hops])
  obtain ⟨e', hfollow, he', hname⟩ := Schema.follow_declared hfinal hkind
  refine ⟨e', he', hname, resolve?_path he hroot hconnected hdeclared hfollow ?_⟩
  intro s hs
  simp [Segment.finalFlaw?, hkind, PropertyKind.isRelation, PropertyKind.cardinality?]

end RowFilter
