import RowFilter.Filter.Basic

/-!
# Nodes

A node is the top of a filter, with parts of any kind in place of the filters beneath: filters
again, or instances from a pool, or their numbers.
-/

namespace RowFilter

/-- The top of a filter over parts of some kind. -/
inductive Node (α : Type) where
  | opened (entity : String)
  | closed (entity : String)
  | compare (leaf : Leaf)
  | existence (entity : String) (chain : Chain) (negated : Bool) (sub : α)
  | junction (entity : String) (kind : Junction) (left : α) (right : α)
deriving DecidableEq, Hashable

namespace Node

variable {α β : Type}

/-- The node with other parts. -/
def map (f : α → β) : Node α → Node β
  | opened e => opened e
  | closed e => closed e
  | compare l => compare l
  | existence e c negated sub => existence e c negated (f sub)
  | junction e kind left right => junction e kind (f left) (f right)

/-- The parts from left to right. -/
def parts : Node α → List α
  | existence _ _ _ sub => [sub]
  | junction _ _ left right => [left, right]
  | _ => []

/-- The entity whose rows the filter is about. -/
def entity : Node α → String
  | opened e => e
  | closed e => e
  | compare l => l.entity
  | existence e _ _ _ => e
  | junction e _ _ _ => e

/-- The number of levels, given those of the parts. -/
def depth (depthOf : α → Nat) : Node α → Nat
  | existence _ _ _ sub => depthOf sub + 1
  | junction _ _ left right => max (depthOf left) (depthOf right) + 1
  | _ => 1

/-- The node of the open filter. -/
def isOpen : Node α → Bool
  | opened _ => true
  | _ => false

/-- The node of the closed filter. -/
def isClosed : Node α → Bool
  | closed _ => true
  | _ => false

/-- The filter that a node over filters is the top of. -/
def filter : Node Filter → Filter
  | opened e => .opened e
  | closed e => .closed e
  | compare l => .compare l
  | existence e c negated sub => .existence e c negated sub
  | junction e kind left right => .junction e kind left right

@[simp] theorem depth_filter (n : Node Filter) : n.filter.depth = n.depth Filter.depth := by
  cases n <;> rfl

@[simp] theorem map_map {γ : Type} (f : α → β) (g : β → γ) (n : Node α) :
    (n.map f).map g = n.map (g ∘ f) := by
  cases n <;> rfl

@[simp] theorem parts_map (f : α → β) (n : Node α) : (n.map f).parts = n.parts.map f := by
  cases n <;> rfl

@[simp] theorem depth_map (f : α → β) (depthOf : β → Nat) (n : Node α) :
    (n.map f).depth depthOf = n.depth (depthOf ∘ f) := by
  cases n <;> rfl

/-- The depth depends on nothing but the depths of the parts. -/
theorem depth_congr {f g : α → Nat} {n : Node α} (h : ∀ p ∈ n.parts, f p = g p) :
    n.depth f = n.depth g := by
  cases n with
  | opened | closed | compare => rfl
  | existence e c negated sub => rw [depth, depth, h sub (by simp [parts])]
  | junction e kind left right =>
    rw [depth, depth, h left (by simp [parts]), h right (by simp [parts])]

/-- A map that keeps the parts apart keeps the nodes apart. -/
theorem eq_of_map_eq {f : α → β} {n n' : Node α}
    (hf : ∀ p ∈ n.parts, ∀ p' ∈ n'.parts, f p = f p' → p = p') (h : n.map f = n'.map f) :
    n = n' := by
  cases n <;> cases n' <;> simp only [map, reduceCtorEq, existence.injEq, junction.injEq] at h
  case opened.opened | closed.closed | compare.compare => simpa using h
  case existence.existence sub _ _ _ sub' =>
    obtain ⟨rfl, rfl, rfl, hs⟩ := h
    rw [hf sub (by simp [parts]) sub' (by simp [parts]) hs]
  case junction.junction left right _ _ left' right' =>
    obtain ⟨rfl, rfl, hl, hr⟩ := h
    rw [hf left (by simp [parts]) left' (by simp [parts]) hl,
      hf right (by simp [parts]) right' (by simp [parts]) hr]

end Node

/-- The top of a filter. -/
def Filter.node : Filter → Node Filter
  | opened e => .opened e
  | closed e => .closed e
  | compare l => .compare l
  | existence e c negated sub => .existence e c negated sub
  | junction e kind left right => .junction e kind left right

@[simp] theorem Filter.filter_node (f : Filter) : f.node.filter = f := by
  cases f <;> rfl

@[simp] theorem Node.node_filter (n : Node Filter) : n.filter.node = n := by
  cases n <;> rfl

end RowFilter
