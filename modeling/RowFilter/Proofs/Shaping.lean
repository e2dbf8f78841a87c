import RowFilter.Proofs.Keeping

/-!
# Everything built is in shape

Every operation on filters gives filters in shape and within the depth limit, from filters that
are. The complement, numbering and reordering check nothing of this themselves: they rely on what
they are given. Texts, outlines and bytes are not trusted at all; what is built from them goes
through the same steps as everything else.
-/

namespace RowFilter

variable {ctx : Context} {e : String} {f : Filter}

/-- The filter is about the entity, in shape, and not too deep. -/
structure Filter.Fits (ctx : Context) (e : String) (f : Filter) : Prop where
  entity : f.entity = e
  inShape : f.InShape
  depth : f.depth ≤ ctx.config.maxDepth

namespace Filter.Fits

theorem self (h : f.Fits ctx e) : f.Fits ctx f.entity :=
  ⟨rfl, h.inShape, h.depth⟩

theorem left {e' : String} {kind : Junction} {l r : Filter}
    (h : (junction e' kind l r).Fits ctx e) : l.Fits ctx e := by
  obtain ⟨rfl, ⟨⟨hl, -, hs⟩, -⟩, hd⟩ := h
  rw [Filter.depth] at hd
  exact ⟨hl, hs, by omega⟩

theorem right {e' : String} {kind : Junction} {l r : Filter}
    (h : (junction e' kind l r).Fits ctx e) : r.Fits ctx e := by
  obtain ⟨rfl, ⟨-, hr, -, hs⟩, hd⟩ := h
  rw [Filter.depth] at hd
  exact ⟨hr, hs, by omega⟩

/-- The filter inside a test fits over the entity that the test is about. -/
theorem sub {e' : String} {c : Chain} {negated : Bool} {s : Filter}
    (h : (existence e' c negated s).Fits ctx e) : s.Fits ctx s.entity := by
  obtain ⟨-, ⟨-, -, hs⟩, hd⟩ := h
  rw [Filter.depth] at hd
  exact ⟨rfl, hs, by omega⟩

end Filter.Fits

/-! ## Complements -/

/-- Flipping the joins leaves the properties that are passed. -/
theorem Chain.properties_flipJoins (c : Chain) :
    c.flipJoins.hops.map Hop.property = c.hops.map Hop.property := by
  simp [Chain.hops, Chain.flipJoins, Function.comp_def]

/-- Reversing the joins leaves the hops connected. -/
theorem Chain.Connected.flipJoins {c : Chain} (h : c.Connected) : c.flipJoins.Connected := by
  have hiff : ∀ d : Chain, d.Connected ↔ (d.hops.map Hop.property).IsChain
      fun p q => p.kind = .relation q.owner .toOne := by
    intro d
    rw [List.isChain_map]
    rfl
  rw [hiff] at h ⊢
  rwa [c.properties_flipJoins]

/-- A comparison stays in shape: it keeps its property and its operand. -/
theorem Leaf.InShape.complement {l : Leaf} (h : l.InShape) : l.complement.InShape where
  root := (Chain.root_flipJoins _).trans h.root
  connected := h.connected.flipJoins
  inner := h.inner
  scalar := h.scalar
  constant := h.constant

/-- So does a whole filter, by induction on the filter. -/
theorem Filter.InShape.complement {f : Filter} (h : f.InShape) : f.complement.InShape := by
  -- nothing is checked again: each node of the complement is in shape because the node was
  induction f with
  | opened | closed => trivial
  | compare l => exact Leaf.InShape.complement h
  | existence e c negated sub => exact h
  | junction e kind left right ihl ihr =>
    obtain ⟨⟨hle, hlp, hls⟩, hre, hrp, hrs⟩ := h
    refine ⟨⟨?_, Filter.proper_complement.2 hlp, ihl hls⟩, ?_,
      Filter.proper_complement.2 hrp, ihr hrs⟩
    · rw [Filter.entity_complement, hle]
    · rw [Filter.entity_complement, hre]

/-! ## Numbering -/

/-- Numbering changes the operands of leaves and nothing else. -/
theorem Filter.number_spec (counters : Counters) (f : Filter) :
    (f.number counters).1.entity = f.entity ∧ (f.number counters).1.depth = f.depth ∧
      (f.number counters).1.isOpen = f.isOpen ∧ (f.number counters).1.isClosed = f.isClosed := by
  induction f generalizing counters with
  | opened | closed => exact ⟨rfl, rfl, rfl, rfl⟩
  | compare l =>
    obtain ⟨entity, shape, operand⟩ := l
    cases operand <;> exact ⟨rfl, rfl, rfl, rfl⟩
  | existence e c negated sub ih =>
    exact ⟨rfl, congrArg (· + 1) (ih counters).2.1, rfl, rfl⟩
  | junction e kind left right ihl ihr =>
    refine ⟨rfl, ?_, rfl, rfl⟩
    simp only [number, Filter.depth, (ihl _).2.1, (ihr _).2.1]

/-- Numbers change nothing about the shape. -/
theorem Filter.InShape.number {f : Filter} (h : f.InShape) (counters : Counters) :
    (f.number counters).1.InShape := by
  induction f generalizing counters with
  | opened | closed => trivial
  | compare l =>
    obtain ⟨entity, shape, operand⟩ := l
    cases operand with
    -- the operand becomes a parameter with a number, which is no constant
    | unbound => exact ⟨h.root, h.connected, h.inner, h.scalar, fun _ hv => (nomatch hv)⟩
    | bound id => exact h
    | constant v => exact h
  | existence e c negated sub ih =>
    obtain ⟨⟨hroot, hconnected, hkind⟩, hclosed, hsub⟩ := h
    obtain ⟨hentity, -, -, hclosed'⟩ := sub.number_spec counters
    refine ⟨⟨hroot, hconnected, ?_⟩, hclosed'.trans hclosed, ih hsub counters⟩
    rw [hkind]
    exact congrArg (PropertyKind.relation · .toMany) hentity.symm
  | junction e kind left right ihl ihr =>
    obtain ⟨⟨hle, hlp, hls⟩, hre, hrp, hrs⟩ := h
    obtain ⟨hentity, -, hopen, hclosed⟩ := left.number_spec counters
    obtain ⟨hentity', -, hopen', hclosed'⟩ := right.number_spec (left.number counters).2
    exact ⟨⟨hentity.trans hle, ⟨hopen.trans hlp.1, hclosed.trans hlp.2⟩, ihl hls _⟩,
      hentity'.trans hre, ⟨hopen'.trans hrp.1, hclosed'.trans hrp.2⟩, ihr hrs _⟩

/-! ## The steps -/

/-- The open filter fits any context, which allows one level at least. -/
theorem fits_opened (e : String) : (Filter.opened e).Fits ctx e :=
  ⟨rfl, trivial, ctx.config.maxDepth_pos⟩

theorem fits_closed (e : String) : (Filter.closed e).Fits ctx e :=
  ⟨rfl, trivial, ctx.config.maxDepth_pos⟩

theorem fits_compare {l : Leaf} (h : l.InShape) : (Filter.compare l).Fits ctx l.entity :=
  ⟨rfl, h, ctx.config.maxDepth_pos⟩

/-- A comparison at the end of a chain that resolved for comparing. -/
theorem compare_inShape {schema : Schema} {e : Entity} {segs : List Segment} {text : String}
    {r : Resolved} {op : RelOp} {operand : Operand}
    (h : schema.resolve e segs .comparison text = .ok r)
    (hoperand : ∀ {kind : ScalarKind} {v : Value}, r.chain.final.property.kind = .scalar kind →
      operand = .constant v → v.coerce? kind r.chain.final.property.nullable = some v) :
    Leaf.InShape ⟨e.name, ⟨r.chain, op⟩, operand⟩ := by
  obtain ⟨hroot, hconnected, hinner, hscalar⟩ := Schema.resolve_spec h
  exact ⟨hroot, hconnected, hinner, hscalar, hoperand⟩

/-- Every step that builds a filter keeps it in shape and within the depth limit. -/
theorem fits_kept (ctx : Context) : Kept ctx fun f => f.Fits ctx f.entity where
  opened _ := fits_opened _
  closed _ := fits_closed _
  unit _ := ⟨fits_opened _, fits_closed _⟩
  compare _ hr hoperand := fits_compare (compare_inShape hr hoperand)
  existence _ hr htarget hname hclosed hsub hdepth := by
    obtain ⟨hroot, hconnected, hkind⟩ := Schema.resolve_existence hr htarget
    rw [hname] at hkind
    exact ⟨rfl, ⟨⟨hroot, hconnected, hkind⟩, hclosed, hsub.inShape⟩, hdepth⟩
  junction hlp hrp hentity hl hr hdepth :=
    ⟨rfl, ⟨⟨rfl, hlp, hl.inShape⟩, hentity, hrp, hr.inShape⟩, hdepth⟩
  operands h := ⟨⟨h.left.entity, h.left.self⟩, h.right.entity, h.right.self⟩
  sub h := h.sub
  within h hsub hentity hclosed hdepth := by
    obtain ⟨-, ⟨⟨hroot, hconnected, hkind⟩, -, -⟩, -⟩ := h
    rw [← hentity] at hkind
    exact ⟨rfl, ⟨⟨hroot, hconnected, hkind⟩, hclosed, hsub.inShape⟩, hdepth⟩
  complement {f} h := ⟨rfl, h.inShape.complement, (Filter.depth_complement f).le.trans h.depth⟩
  number {f} counters h :=
    ⟨rfl, h.inShape.number counters, (f.number_spec counters).2.1.le.trans h.depth⟩

end RowFilter
