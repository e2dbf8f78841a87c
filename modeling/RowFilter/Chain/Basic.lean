import RowFilter.Schema.Basic

/-!
# Chains of properties

A chain walks from a row to what a comparison or an existence test is about. It goes through
any number of joins, each over a to-one relation, and ends in a final hop: the compared scalar,
or the to-many relation that is tested for rows. A join may be *outer*; then a row without a
related row satisfies the comparison, where an inner join would fail it.
-/

namespace RowFilter

/-- One step over a property. -/
structure Hop where
  property : Property
  outer : Bool
deriving DecidableEq, Repr, Hashable

namespace Hop

/-- The hop with the direction of its join reversed. -/
def flip (h : Hop) : Hop :=
  { h with outer := !h.outer }

/-- The property's name, in parentheses if the hop is outer. -/
def render (h : Hop) : String :=
  if h.outer then "(" ++ h.property.name ++ ")" else h.property.name

@[simp] theorem flip_flip (h : Hop) : h.flip.flip = h := by
  simp [flip]

@[simp] theorem flip_property (h : Hop) : h.flip.property = h.property := rfl

@[simp] theorem flip_outer (h : Hop) : h.flip.outer = !h.outer := rfl

end Hop

/-- The joins on the way and the hop they lead to. -/
structure Chain where
  joins : List Hop
  final : Hop
deriving DecidableEq, Repr, Hashable

namespace Chain

/-- All hops in order. -/
def hops (c : Chain) : List Hop :=
  c.joins ++ [c.final]

/-- The number of hops. -/
def length (c : Chain) : Nat :=
  c.joins.length + 1

/-- The number of joins. -/
def joinDepth (c : Chain) : Nat :=
  c.joins.length

/-- The name of the entity that the chain starts from. -/
def root (c : Chain) : String :=
  match c.joins with
  | first :: _ => first.property.owner
  | [] => c.final.property.owner

/-- Some hop is outer, the final one included. -/
def hasOuterJoin (c : Chain) : Bool :=
  c.joins.any Hop.outer || c.final.outer

/-- The chain with the direction of every join reversed; the final hop is no join. -/
def flipJoins (c : Chain) : Chain :=
  { c with joins := c.joins.map Hop.flip }

/-- The hops with dots between them. -/
def render (c : Chain) : String :=
  ".".intercalate (c.hops.map Hop.render)

/-- Reversing all joins twice changes nothing. -/
@[simp] theorem flipJoins_flipJoins (c : Chain) : c.flipJoins.flipJoins = c := by
  simp [flipJoins, Function.comp_def]

@[simp] theorem flipJoins_final (c : Chain) : c.flipJoins.final = c.final := rfl

@[simp] theorem length_flipJoins (c : Chain) : c.flipJoins.length = c.length := by
  simp [length, flipJoins]

/-- The direction of the joins does not say where a chain starts. -/
@[simp] theorem root_flipJoins (c : Chain) : c.flipJoins.root = c.root := by
  rcases c with ⟨_ | ⟨h, t⟩, f⟩ <;> rfl

theorem length_hops (c : Chain) : c.hops.length = c.length := by
  simp [hops, length]

theorem hops_ne_nil (c : Chain) : c.hops ≠ [] := by
  simp [hops]

/-- A chain is determined by its hops. -/
theorem hops_injective {c d : Chain} (h : c.hops = d.hops) : c = d := by
  obtain ⟨cj, cf⟩ := c
  obtain ⟨dj, df⟩ := d
  obtain ⟨hj, hf⟩ := List.append_inj' h rfl
  simp only at hj hf
  rw [hj, List.singleton_inj.1 hf]

end Chain

end RowFilter
