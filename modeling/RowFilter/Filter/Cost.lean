import RowFilter.Builder

/-!
# Cheap tests first

Evaluating a filter costs most where it leaves the row: a comparison of the row's own property is
free, one over joins costs more, one over outer joins still more, and an existence test most of
all, the longer its chain the more. Reordering puts the operands of every run of one junction
into ascending order of cost, keeps the order of equally dear ones, and groups the run to the
left. Only the grouping can make a filter deeper.
-/

namespace RowFilter

/-- How far a test has to go. -/
inductive Tier where
  | joinless
  | innerJoin
  | outerJoin
  | existence
deriving DecidableEq, Repr

namespace Tier

/-- The place of a tier in the order of cost. -/
def rank : Tier → Nat
  | joinless => 0
  | innerJoin => 1
  | outerJoin => 2
  | existence => 3

/-- The name of a tier. -/
def label : Tier → String
  | joinless => "joinless"
  | innerJoin => "inner-join"
  | outerJoin => "outer-join"
  | existence => "exists"

end Tier

/-- A tier and, for existence tests, the length of the chain. -/
structure Cost where
  tier : Tier
  length : Nat
deriving DecidableEq, Repr

namespace Cost

/-- The cost of a test on the row itself. -/
def free : Cost := ⟨.joinless, 0⟩

/-- The tier counts first, then the length. -/
def le (a b : Cost) : Bool :=
  a.tier.rank < b.tier.rank || (a.tier.rank == b.tier.rank && a.length ≤ b.length)

/-- The dearer of two costs. -/
def max (a b : Cost) : Cost :=
  if a.le b then b else a

theorem le_total (a b : Cost) : (a.le b || b.le a) = true := by
  simp only [le, Bool.or_eq_true, Bool.and_eq_true, decide_eq_true_eq, beq_iff_eq]
  omega

theorem le_trans {a b c : Cost} (h₁ : a.le b = true) (h₂ : b.le c = true) : a.le c = true := by
  simp only [le, Bool.or_eq_true, Bool.and_eq_true, decide_eq_true_eq, beq_iff_eq] at h₁ h₂ ⊢
  omega

end Cost

/-- The cost of comparing the property at the end of the chain. -/
def Chain.cost (c : Chain) : Cost :=
  if c.joinDepth = 0 then .free
  else if c.hasOuterJoin then ⟨.outerJoin, 0⟩
  else ⟨.innerJoin, 0⟩

/-- The items in ascending order of cost, equally dear ones in the given order. -/
def cheapestFirst {α : Type} (costOf : α → Cost) (items : List α) : List α :=
  ((items.map fun x => (costOf x, x)).mergeSort fun a b => a.1.le b.1).map Prod.snd

/-- The order depends on nothing but the costs. -/
theorem map_cheapestFirst {α β : Type} (f : α → β) (costOf : β → Cost) (items : List α) :
    (cheapestFirst (costOf ∘ f) items).map f = cheapestFirst costOf (items.map f) := by
  have hsort := List.map_mergeSort (f := Prod.map id f)
    (r := fun a b : Cost × α => a.1.le b.1) (s := fun a b : Cost × β => a.1.le b.1)
    (l := items.map fun x => (costOf (f x), x)) (fun _ _ _ _ => rfl)
  have hpairs : (items.map fun x => (costOf (f x), x)).map (Prod.map id f) =
      (items.map f).map fun y => (costOf y, y) := by
    simp [Function.comp_def]
  unfold cheapestFirst
  rw [← hpairs, ← hsort, List.map_map, List.map_map]
  rfl

/-- Sorting loses nothing and adds nothing. -/
theorem cheapestFirst_perm {α : Type} (costOf : α → Cost) (items : List α) :
    (cheapestFirst costOf items).Perm items := by
  have hperm := (List.mergeSort_perm (items.map fun x => (costOf x, x))
    fun a b => a.1.le b.1).map Prod.snd
  rw [List.map_map] at hperm
  unfold cheapestFirst
  simpa [Function.comp_def] using hperm

namespace Filter

/-- The cost of a filter; a junction costs what its dearest operand does. -/
def cost : Filter → Cost
  | opened _ => .free
  | closed _ => .free
  | compare l => l.chain.cost
  | existence _ c _ _ => ⟨.existence, c.length⟩
  | junction _ _ left right => left.cost.max right.cost

end Filter

namespace Context

/-- The reordered operands of the maximal run of `run` that the filter is; outside any run, or
if the filter is no junction of that kind, the one reordered filter. -/
def reordered (ctx : Context) : (run : Option Junction) → Filter → Except FilterError (List Filter)
  | run, .junction e kind left right => do
    let ls ← ctx.reordered (some kind) left
    let rs ← ctx.reordered (some kind) right
    if run = some kind then return ls ++ rs
    else return [← ctx.joinAll e kind (cheapestFirst Filter.cost (ls ++ rs))]
  | _, .existence e c negated sub => do
    let sub' ← ctx.joinAll sub.entity .and (← ctx.reordered none sub)
    if sub' = sub then return [.existence e c negated sub]
    else return [← ctx.existence e c negated sub']
  | _, f => .ok [f]

/-- The filter with the operands of every run in ascending order of cost. -/
def optimize (ctx : Context) (f : Filter) : Except FilterError Filter := do
  ctx.joinAll f.entity .and (← ctx.reordered none f)

end Context

end RowFilter
