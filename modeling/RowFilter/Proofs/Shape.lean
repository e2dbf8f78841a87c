import Mathlib.Data.List.Chain
import RowFilter.Value.Coerce
import RowFilter.Proofs.Steps

/-!
# Filters in shape

What a filter must be like to make sense at every node. Chains start where the node is and lead
on over relations to at most one row; a comparison ends in a scalar, an existence test in a
relation to many rows, over whose entity the filter inside is. No junction stands over the open
or the closed filter, and no existence test over the closed one. Constants are as the property
holds them.
-/

namespace RowFilter

/-- The hop leads to at most one row of the entity that the next hop belongs to. -/
def Hop.LeadsTo (h next : Hop) : Prop :=
  h.property.kind = .relation next.property.owner .toOne

/-- Each hop but the last leads to the next one. -/
def Chain.Connected (c : Chain) : Prop :=
  c.hops.IsChain Hop.LeadsTo

/-- A comparison that makes sense. -/
structure Leaf.InShape (l : Leaf) : Prop where
  root : l.chain.root = l.entity
  connected : l.chain.Connected
  inner : l.chain.final.outer = false
  scalar : ∃ kind, l.chain.final.property.kind = .scalar kind
  /-- A constant is what coercing it to the type of the property gives. -/
  constant : ∀ {kind : ScalarKind} {v : Value}, l.chain.final.property.kind = .scalar kind →
    l.operand = .constant v → v.coerce? kind l.chain.final.property.nullable = some v

/-- Every node of the filter makes sense. -/
def Filter.InShape : Filter → Prop
  | opened _ => True
  | closed _ => True
  | compare l => l.InShape
  | existence e c _ sub =>
    (c.root = e ∧ c.Connected ∧ c.final.property.kind = .relation sub.entity .toMany) ∧
      sub.isClosed = false ∧ sub.InShape
  | junction e _ left right =>
    (left.entity = e ∧ left.Proper ∧ left.InShape) ∧
      right.entity = e ∧ right.Proper ∧ right.InShape

/-! ## Chains that names resolve to -/

/-- The final hop is what the use of the chain asks for. -/
def ChainUse.Allows : ChainUse → Resolved → Prop
  | .comparison, r =>
    r.chain.final.outer = false ∧ ∃ kind, r.chain.final.property.kind = .scalar kind
  | .existence, r =>
    ∃ target, r.target = some target ∧
      r.chain.final.property.kind = .relation target.name .toMany
  | .standalone, _ => True

namespace Schema

variable {schema : Schema} {use : ChainUse} {text : String}

theorem propertyAt_eq_ok {e : Entity} {s : Segment} {flaw? : Property → Option Flaw}
    {p : Property} (h : propertyAt e s text flaw? = .ok p) :
    p.owner = e.name ∧ flaw? p = none := by
  unfold propertyAt at h
  split at h
  · exact nomatch h
  · next q hq =>
    split at h
    · exact nomatch h
    · next hflaw =>
      obtain rfl := Except.ok.inj h
      exact ⟨Entity.property?_owner hq, hflaw⟩

/-- Following a relation leads to the entity it names. -/
theorem follow_relation {p : Property} {target : String} {cardinality : Cardinality}
    {found : Option Entity} (hkind : p.kind = .relation target cardinality)
    (h : schema.follow p = .ok found) : ∃ e, found = some e ∧ e.name = target := by
  unfold follow at h
  rw [hkind] at h
  simp only [PropertyKind.target?] at h
  split at h
  · next e he =>
    obtain rfl := Except.ok.inj h
    exact ⟨e, rfl, entity_name he⟩
  · exact nomatch h

theorem joinFlaw?_none {s : Segment} {p : Property} (h : s.joinFlaw? p = none) :
    ∃ target, p.kind = .relation target .toOne := by
  unfold Segment.joinFlaw? at h
  split at h
  · exact nomatch h
  · cases hkind : p.kind with
    | scalar kind =>
      rw [hkind] at h
      exact nomatch h
    | relation target cardinality =>
      rw [hkind] at h
      cases cardinality with
      | toOne => exact ⟨target, rfl⟩
      | toMany => exact nomatch h

/-- A final hop without a flaw is what the use asks for. -/
theorem allows_of_finalFlaw? {s : Segment} {p : Property} {joins : List Hop}
    {target : Option Entity} (h : s.finalFlaw? p use = none)
    (htarget : schema.follow p = .ok target) :
    use.Allows ⟨⟨joins, ⟨p, s.outer⟩⟩, target⟩ := by
  unfold Segment.finalFlaw? at h
  split at h
  · exact nomatch h
  · next houter =>
    split at h
    · exact nomatch h
    · cases use with
      | standalone => trivial
      | comparison =>
        cases hkind : p.kind with
        | scalar kind => exact ⟨by simpa using houter, kind, hkind⟩
        | relation target cardinality =>
          rw [hkind] at h
          cases cardinality <;> exact nomatch h
      | existence =>
        cases hkind : p.kind with
        | scalar kind =>
          rw [hkind] at h
          exact nomatch h
        | relation name cardinality =>
          obtain ⟨e, rfl, rfl⟩ := follow_relation hkind htarget
          rw [hkind] at h
          cases cardinality with
          | toOne => exact nomatch h
          | toMany => exact ⟨e, rfl, hkind⟩

/-- What is appended to the joins walked so far starts at the entity and is connected. -/
theorem resolveFrom_spec {e : Entity} {joins : List Hop} {segs : List Segment} {r : Resolved}
    (h : schema.resolveFrom use text e joins segs = .ok r) :
    ∃ more, r.chain.joins = joins.reverse ++ more ∧
      (∀ first ∈ (more ++ [r.chain.final]).head?, first.property.owner = e.name) ∧
      (more ++ [r.chain.final]).IsChain Hop.LeadsTo ∧ use.Allows r := by
  induction segs generalizing e joins with
  | nil => exact nomatch h
  | cons s rest ih =>
    cases rest with
    | nil =>
      -- the last segment: nothing is joined any more, and its flaws depend on the use
      obtain ⟨p, hp, h⟩ := bind_eq_ok.1 h
      obtain ⟨target, htarget, h⟩ := bind_eq_ok.1 h
      obtain rfl := pure_eq_ok.1 h
      obtain ⟨howner, hflaw⟩ := propertyAt_eq_ok hp
      refine ⟨[], (List.append_nil _).symm, ?_, List.IsChain.singleton _,
        allows_of_finalFlaw? hflaw htarget⟩
      intro first hfirst
      obtain rfl := Option.some.inj hfirst
      exact howner
    | cons s' rest =>
      obtain ⟨p, hp, h⟩ := bind_eq_ok.1 h
      obtain ⟨found, hfound, h⟩ := bind_eq_ok.1 h
      obtain ⟨howner, hflaw⟩ := propertyAt_eq_ok hp
      obtain ⟨target, hkind⟩ := joinFlaw?_none hflaw
      obtain ⟨next, rfl, rfl⟩ := follow_relation hkind hfound
      -- the others are resolved from the target, so they begin with a property of it
      obtain ⟨more, hjoins, hhead, hchain, hfinal⟩ := ih h
      refine ⟨⟨p, s.outer⟩ :: more, ?_, ?_, ?_, hfinal⟩
      · rw [hjoins, List.reverse_cons, List.append_assoc]
        rfl
      · intro first hfirst
        obtain rfl := Option.some.inj hfirst
        exact howner
      · rw [List.cons_append, List.isChain_cons]
        refine ⟨fun first hfirst => ?_, hchain⟩
        rw [Hop.LeadsTo, hhead first hfirst]
        exact hkind

/-- A chain that names resolve to starts at the entity, is connected, and ends as its use
asks. -/
theorem resolve_spec {e : Entity} {segs : List Segment} {r : Resolved}
    (h : schema.resolve e segs use text = .ok r) :
    r.chain.root = e.name ∧ r.chain.Connected ∧ use.Allows r := by
  obtain ⟨more, hjoins, hhead, hchain, hfinal⟩ := resolveFrom_spec h
  rw [List.reverse_nil, List.nil_append] at hjoins
  obtain ⟨⟨joins, final⟩, target⟩ := r
  obtain rfl : joins = more := hjoins
  refine ⟨?_, hchain, hfinal⟩
  cases joins with
  | nil => exact hhead final rfl
  | cons first rest => exact hhead first rfl

/-- A chain resolved for testing ends in a relation to many rows of its target. -/
theorem resolve_existence {e : Entity} {segs : List Segment} {r : Resolved} {target : Entity}
    (h : schema.resolve e segs .existence text = .ok r) (htarget : r.target = some target) :
    r.chain.root = e.name ∧ r.chain.Connected ∧
      r.chain.final.property.kind = .relation target.name .toMany := by
  obtain ⟨hroot, hconnected, target', htarget', hkind⟩ := resolve_spec h
  obtain rfl := Option.some.inj (htarget.symm.trans htarget')
  exact ⟨hroot, hconnected, hkind⟩

end Schema

/-! ## Constants -/

namespace Value

variable {kind : ScalarKind} {nullable : Bool}

/-- A value of the kind itself is coerced to itself. -/
theorem coerce?_of_kind? {w : Value} (h : w.kind? = some kind) :
    w.coerce? kind nullable = some w := by
  cases w with
  | null => exact nomatch h
  | _ =>
    obtain rfl := Option.some.inj h
    rfl

/-- A coerced value is of the kind, unless it is null. -/
theorem kind?_of_coerce? {v w : Value} (h : v.coerce? kind nullable = some w) :
    w.kind? = some kind ∨ w = .null ∧ nullable = true := by
  -- integers convert to other kinds of numbers, everything else must be of the kind already
  cases v with
  | null =>
    obtain ⟨hnull, hw⟩ := Option.ite_none_right_eq_some.1 h
    exact .inr ⟨(Option.some.inj hw).symm, hnull⟩
  | int n =>
    cases kind with
    | int =>
      obtain rfl := Option.some.inj h
      exact .inl rfl
    | uint =>
      obtain ⟨-, hw⟩ := Option.ite_none_right_eq_some.1 h
      obtain rfl := Option.some.inj hw
      exact .inl rfl
    | float64 =>
      obtain ⟨x, -, rfl⟩ := Option.map_eq_some_iff.1 h
      exact .inl rfl
    | _ => exact nomatch h
  | uint n =>
    cases kind with
    | uint =>
      obtain rfl := Option.some.inj h
      exact .inl rfl
    | int =>
      obtain ⟨-, hw⟩ := Option.ite_none_right_eq_some.1 h
      obtain rfl := Option.some.inj hw
      exact .inl rfl
    | float64 =>
      obtain ⟨x, -, rfl⟩ := Option.map_eq_some_iff.1 h
      exact .inl rfl
    | _ => exact nomatch h
  | _ =>
    obtain ⟨rfl, hw⟩ := Option.ite_none_right_eq_some.1 h
    obtain rfl := Option.some.inj hw
    exact .inl rfl

/-- Coercing a coerced value changes nothing. -/
theorem coerce?_idem {v w : Value} (h : v.coerce? kind nullable = some w) :
    w.coerce? kind nullable = some w := by
  rcases kind?_of_coerce? h with hkind | ⟨rfl, hnull⟩
  · exact coerce?_of_kind? hkind
  · rw [coerce?, if_pos hnull]

end Value

theorem Chain.coerce_spec {c : Chain} {v w : Value} (h : c.coerce v = .ok w)
    {kind : ScalarKind} (hkind : c.final.property.kind = .scalar kind) :
    w.coerce? kind c.final.property.nullable = some w := by
  unfold coerce at h
  rw [hkind] at h
  simp only [PropertyKind.scalar?] at h
  split at h
  · next w' hw =>
    obtain rfl := Except.ok.inj h
    exact Value.coerce?_idem hw
  · exact nomatch h

/-- What is as the property holds it stays as it is. -/
theorem Chain.coerce_of_fixed {c : Chain} {kind : ScalarKind} {v : Value}
    (hkind : c.final.property.kind = .scalar kind)
    (hfixed : v.coerce? kind c.final.property.nullable = some v) : c.coerce v = .ok v := by
  unfold coerce
  rw [hkind]
  simp only [PropertyKind.scalar?, hfixed]

end RowFilter
