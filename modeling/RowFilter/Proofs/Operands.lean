import RowFilter.Proofs.Shape

/-!
# Operands of filters

A filter can be taken apart along its junctions: along all of them down to the atoms, or along
those of one kind only, which are a run. Existence tests are not looked into. Whatever stands in a
filter in this way is about the same entity, is neither open nor closed unless it is the filter
itself, and is no deeper.
-/

namespace RowFilter.Filter

variable {e : String} {kind : Junction} {f g k l r : Filter}

/-! ## At any depth -/

/-- The filter is `f` or an operand somewhere in it; existence tests are not looked into. -/
inductive StandsIn (g : Filter) : Filter → Prop where
  | self : StandsIn g g
  | left {e : String} {kind : Junction} {l r : Filter} (h : StandsIn g l) :
    StandsIn g (junction e kind l r)
  | right {e : String} {kind : Junction} {l r : Filter} (h : StandsIn g r) :
    StandsIn g (junction e kind l r)

theorem standsIn_junction :
    g.StandsIn (junction e kind l r) ↔ g = junction e kind l r ∨ g.StandsIn l ∨ g.StandsIn r := by
  constructor
  · intro h
    cases h with
    | self => exact .inl rfl
    | left h => exact .inr (.inl h)
    | right h => exact .inr (.inr h)
  · rintro (rfl | h | h)
    · exact .self
    · exact .left h
    · exact .right h

namespace StandsIn

theorem trans (hg : g.StandsIn k) (hk : k.StandsIn f) : g.StandsIn f := by
  induction hk with
  | self => exact hg
  | left _ ih => exact .left ih
  | right _ ih => exact .right ih

theorem depth_le (h : g.StandsIn f) : g.depth ≤ f.depth := by
  induction h with
  | self => exact Nat.le_refl _
  | left _ ih =>
    rw [depth]
    omega
  | right _ ih =>
    rw [depth]
    omega

/-- All operands are over one entity. -/
theorem entity_eq (h : g.StandsIn f) (hf : f.InShape) : g.entity = f.entity := by
  induction h with
  | self => rfl
  | left _ ih =>
    obtain ⟨⟨hentity, -, hl⟩, -⟩ := hf
    exact (ih hl).trans hentity
  | right _ ih =>
    obtain ⟨-, hentity, -, hr⟩ := hf
    exact (ih hr).trans hentity

/-- Operands of a filter in shape are in shape. -/
theorem inShape (h : g.StandsIn f) (hf : f.InShape) : g.InShape := by
  induction h with
  | self => exact hf
  | left _ ih =>
    obtain ⟨⟨-, -, hl⟩, -⟩ := hf
    exact ih hl
  | right _ ih =>
    obtain ⟨-, -, -, hr⟩ := hf
    exact ih hr

/-- Operands of a filter that is neither open nor closed are neither. -/
theorem proper (h : g.StandsIn f) (hf : f.InShape) (hproper : f.Proper) : g.Proper := by
  induction h with
  | self => exact hproper
  | left _ ih =>
    obtain ⟨⟨-, hlproper, hl⟩, -⟩ := hf
    exact ih hl hlproper
  | right _ ih =>
    obtain ⟨-, -, hrproper, hr⟩ := hf
    exact ih hr hrproper

end StandsIn

/-! ## Atoms -/

/-- The filter is no junction. -/
def IsAtom (f : Filter) : Prop :=
  ∀ e kind l r, f ≠ junction e kind l r

/-- An atom has no operand but itself. -/
theorem IsAtom.standsIn_iff (hf : f.IsAtom) : g.StandsIn f ↔ g = f := by
  constructor
  · intro h
    cases h with
    | self => rfl
    | left => exact absurd rfl (hf _ _ _ _)
    | right => exact absurd rfl (hf _ _ _ _)
  · rintro rfl
    exact .self

/-- The operands of all junctions that are no junctions themselves, from left to right. -/
def atoms : Filter → List Filter
  | junction _ _ left right => left.atoms ++ right.atoms
  | f => [f]

theorem atoms_ne_nil (f : Filter) : f.atoms ≠ [] := by
  induction f with
  | opened | closed | compare | existence => exact List.cons_ne_nil _ _
  | junction e kind left right ihl ihr =>
    intro hnil
    exact ihl (List.append_eq_nil_iff.1 hnil).1

/-- What is no junction is its own only atom. -/
theorem isAtom_iff : f.IsAtom ↔ f.atoms = [f] := by
  constructor
  · intro hf
    cases f with
    | junction e kind l r => exact absurd rfl (hf e kind l r)
    | opened | closed | compare | existence => rfl
  · -- a junction has an atom on either side, so two at least
    rintro hf e kind l r rfl
    have hl := List.length_pos_of_ne_nil l.atoms_ne_nil
    have hr := List.length_pos_of_ne_nil r.atoms_ne_nil
    have hlength := congrArg List.length hf
    rw [atoms, List.length_append, List.length_singleton] at hlength
    omega

theorem isAtom_of_mem_atoms (h : g ∈ f.atoms) : g.IsAtom := by
  induction f with
  | opened | closed | compare | existence =>
    rw [List.mem_singleton.1 h]
    exact isAtom_iff.2 rfl
  | junction e kind left right ihl ihr =>
    rcases List.mem_append.1 h with h | h
    · exact ihl h
    · exact ihr h

/-- The atoms are operands. -/
theorem standsIn_of_mem_atoms (h : g ∈ f.atoms) : g.StandsIn f := by
  induction f with
  | opened | closed | compare | existence =>
    rw [List.mem_singleton.1 h]
    exact .self
  | junction e kind left right ihl ihr =>
    rcases List.mem_append.1 h with h | h
    · exact .left (ihl h)
    · exact .right (ihr h)

/-! ## Runs -/

/-- The operands of the maximal run of the junction that the filter is; one, if it is no junction
of that kind. -/
def runOf (kind : Junction) : Filter → List Filter
  | junction e k left right =>
    if k = kind then left.runOf kind ++ right.runOf kind else [junction e k left right]
  | f => [f]

/-- The operands of a run are those of both sides, in order. -/
theorem runOf_junction (e : String) (kind : Junction) (l r : Filter) :
    (junction e kind l r).runOf kind = l.runOf kind ++ r.runOf kind :=
  if_pos rfl

/-- What is no junction of the kind is a run of one. -/
theorem runOf_eq_singleton (h : ∀ e l r, f ≠ junction e kind l r) : f.runOf kind = [f] := by
  cases f with
  | opened | closed | compare | existence => rfl
  | junction e k l r =>
    apply if_neg
    rintro rfl
    exact h e l r rfl

theorem runOf_ne_nil (kind : Junction) (f : Filter) : f.runOf kind ≠ [] := by
  induction f with
  | opened | closed | compare | existence => exact List.cons_ne_nil _ _
  | junction e k left right ihl ihr =>
    rw [runOf]
    split
    · intro hnil
      exact ihl (List.append_eq_nil_iff.1 hnil).1
    · exact List.cons_ne_nil _ _

/-- A run is maximal, and it stands in the filter. -/
theorem mem_runOf (h : g ∈ f.runOf kind) :
    g.StandsIn f ∧ ∀ e l r, g ≠ junction e kind l r := by
  induction f with
  | opened | closed | compare | existence =>
    obtain rfl := List.mem_singleton.1 h
    refine ⟨.self, ?_⟩
    intro e l r heq
    cases heq
  | junction e k left right ihl ihr =>
    rw [runOf] at h
    split at h
    · rcases List.mem_append.1 h with h | h
      · obtain ⟨hin, hother⟩ := ihl h
        exact ⟨.left hin, hother⟩
      · obtain ⟨hin, hother⟩ := ihr h
        exact ⟨.right hin, hother⟩
    · next hk =>
      obtain rfl := List.mem_singleton.1 h
      refine ⟨.self, ?_⟩
      intro e' l' r' heq
      cases heq
      exact hk rfl

/-- What is collected along the junctions of one kind is collected along the run. -/
theorem flatMap_runOf {α : Type} {collect : Filter → List α}
    (h : ∀ e l r, collect (junction e kind l r) = collect l ++ collect r) (f : Filter) :
    (f.runOf kind).flatMap collect = collect f := by
  induction f with
  | opened | closed | compare | existence => exact List.flatMap_singleton _ _
  | junction e k left right ihl ihr =>
    rw [runOf]
    split
    · next hk =>
      rw [List.flatMap_append, ihl, ihr, hk, h]
    · exact List.flatMap_singleton _ _

/-- The operands of a run are less deep than the run. -/
theorem depth_lt_of_mem_runOf (h : g ∈ l.runOf kind ++ r.runOf kind) :
    g.depth < (junction e kind l r).depth := by
  rw [depth]
  rcases List.mem_append.1 h with h | h
  · have hle := (mem_runOf h).1.depth_le
    omega
  · have hle := (mem_runOf h).1.depth_le
    omega

end RowFilter.Filter
