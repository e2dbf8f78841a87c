import RowFilter.Filter.Cost
import RowFilter.Proofs.Shape

/-!
# What filters cost

The order of costs is that of the tiers, from tests of the row itself over inner and outer joins
to existence tests, and within a tier that of the lengths. What a filter costs is said by cases:
a comparison is of the tier that its joins are of, an existence test is as long as its chain, and a
junction costs what the dearer of its operands does. The function that computes the cost gives for
every filter the one cost that these cases leave open.
-/

namespace RowFilter

/-! ## The order of costs -/

/-- The tiers from the cheapest to the dearest. -/
def Tier.ascending : List Tier :=
  [.joinless, .innerJoin, .outerJoin, .existence]

namespace Cost

variable {a b c d : Cost} {cs ds : List Cost}

/-- The cost is of an earlier tier, or of the same tier and no longer. -/
def NoDearer (a b : Cost) : Prop :=
  [a.tier, b.tier].Sublist Tier.ascending ∨ a.tier = b.tier ∧ a.length ≤ b.length

/-- Costs are compared by the places of their tiers, and by lengths within a tier. -/
theorem le_iff : a.le b = true ↔ a.NoDearer b := by
  have hearlier : ∀ s t : Tier, [s, t].Sublist Tier.ascending ↔ s.rank < t.rank := by
    intro s t
    cases s <;> cases t <;> decide
  have hsame : ∀ s t : Tier, s = t ↔ s.rank = t.rank := by
    intro s t
    cases s <;> cases t <;> decide
  simp [le, NoDearer, hearlier, hsame]

theorem le_refl (c : Cost) : c.le c = true :=
  le_iff.2 (.inr ⟨rfl, Nat.le_refl _⟩)

/-- Costs that are no dearer than each other are one. -/
theorem le_antisymm (h₁ : a.le b = true) (h₂ : b.le a = true) : a = b := by
  obtain ⟨s, m⟩ := a
  obtain ⟨t, n⟩ := b
  simp only [le, Bool.or_eq_true, Bool.and_eq_true, decide_eq_true_eq, beq_iff_eq] at h₁ h₂
  have hlength : m = n := by omega
  have hrank : s.rank = t.rank := by omega
  have htier : s = t := by
    cases s <;> cases t <;> simp [Tier.rank] at hrank ⊢
  rw [hlength, htier]

theorem le_max_left (a b : Cost) : a.le (a.max b) = true := by
  unfold max
  split
  · assumption
  · exact a.le_refl

theorem le_max_right (a b : Cost) : b.le (a.max b) = true := by
  unfold max
  split
  · exact b.le_refl
  · have htotal := a.le_total b
    simp_all

/-- The dearer of two costs is one of them. -/
theorem max_eq (a b : Cost) : a.max b = a ∨ a.max b = b := by
  unfold max
  split
  · exact .inr rfl
  · exact .inl rfl

/-- The greatest of the costs. -/
def Dearest (c : Cost) (cs : List Cost) : Prop :=
  c ∈ cs ∧ ∀ d ∈ cs, d.le c = true

theorem dearest_singleton (c : Cost) : Dearest c [c] :=
  ⟨List.mem_singleton_self c, List.forall_mem_singleton.2 c.le_refl⟩

/-- The dearer of the two greatest costs is the greatest of all. -/
theorem Dearest.append (hc : Dearest c cs) (hd : Dearest d ds) : Dearest (c.max d) (cs ++ ds) := by
  constructor
  · rcases c.max_eq d with h | h
    · rw [h]
      exact List.mem_append_left _ hc.1
    · rw [h]
      exact List.mem_append_right _ hd.1
  · intro b hb
    rcases List.mem_append.1 hb with hb | hb
    · exact le_trans (hc.2 b hb) (c.le_max_left d)
    · exact le_trans (hd.2 b hb) (c.le_max_right d)

/-- There is but one, in whatever order the costs are. -/
theorem Dearest.unique (hc : Dearest c cs) (hd : Dearest d ds) (h : cs.Perm ds) : c = d :=
  le_antisymm (hd.2 c (h.mem_iff.1 hc.1)) (hc.2 d (h.mem_iff.2 hd.1))

end Cost

/-! ## The costs of filters -/

namespace Filter

variable {f l r : Filter} {c d : Cost}

/-- What evaluating a filter costs. -/
inductive Costs : Filter → Cost → Prop where
  | opened (e : String) : Costs (opened e) ⟨.joinless, 0⟩
  | closed (e : String) : Costs (closed e) ⟨.joinless, 0⟩
  /-- The compared property is one of the row itself. -/
  | joinless {l : Leaf} (h : l.chain.joins = []) : Costs (compare l) ⟨.joinless, 0⟩
  /-- The compared property is reached through joins, all of them inner. -/
  | innerJoin {l : Leaf} (h : l.chain.joins ≠ []) (hinner : ∀ j ∈ l.chain.joins, j.outer = false) :
    Costs (compare l) ⟨.innerJoin, 0⟩
  /-- One of the joins on the way to the compared property is outer. -/
  | outerJoin {l : Leaf} {j : Hop} (hj : j ∈ l.chain.joins) (houter : j.outer = true) :
    Costs (compare l) ⟨.outerJoin, 0⟩
  /-- Existence tests differ by the number of hops. -/
  | existence (e : String) (c : Chain) (negated : Bool) (sub : Filter) :
    Costs (existence e c negated sub) ⟨.existence, c.hops.length⟩
  | left {e : String} {kind : Junction} {l r : Filter} {c d : Cost} (hl : Costs l c)
    (hr : Costs r d) (h : d.NoDearer c) : Costs (junction e kind l r) c
  | right {e : String} {kind : Junction} {l r : Filter} {c d : Cost} (hl : Costs l c)
    (hr : Costs r d) (h : c.NoDearer d) : Costs (junction e kind l r) d

/-- A comparison costs what the joins on its way say; its last hop is no join. -/
theorem costs_compare {l : Leaf} (h : l.InShape) : (compare l).Costs (compare l).cost := by
  -- in shape the final hop is not outer, so an outer hop is a join
  have houter : l.chain.hasOuterJoin = l.chain.joins.any Hop.outer := by
    rw [Chain.hasOuterJoin, h.inner, Bool.or_false]
  rw [cost, Chain.cost, Chain.joinDepth, houter]
  split
  · next hnone => exact .joinless (List.eq_nil_of_length_eq_zero hnone)
  · next hsome =>
    split
    · next hany =>
      obtain ⟨j, hj, hjouter⟩ := List.any_eq_true.1 hany
      exact .outerJoin hj hjouter
    · next hall =>
      refine .innerJoin (fun hnil => hsome (by rw [hnil]; rfl)) fun j hj => ?_
      exact Bool.eq_false_iff.2 fun hjouter => hall (List.any_eq_true.2 ⟨j, hj, hjouter⟩)

/-- The cost that is computed is what the filter costs. -/
theorem costs_cost (h : f.InShape) : f.Costs f.cost := by
  induction f with
  | opened e => exact .opened e
  | closed e => exact .closed e
  | compare l => exact costs_compare h
  | existence e c negated sub =>
    rw [cost, ← c.length_hops]
    exact .existence e c negated sub
  | junction e kind l r ihl ihr =>
    have hl := ihl h.1.2.2
    have hr := ihr h.2.2.2
    rw [cost, Cost.max]
    split
    · next hle => exact .right hl hr (Cost.le_iff.1 hle)
    · next hgt =>
      have htotal := l.cost.le_total r.cost
      rw [Bool.eq_false_iff.2 hgt, Bool.false_or] at htotal
      exact .left hl hr (Cost.le_iff.1 htotal)

/-- A filter has but one cost. -/
theorem Costs.unique (hc : f.Costs c) (hd : f.Costs d) : c = d := by
  induction hc generalizing d with
  | opened | closed | existence =>
    cases hd
    rfl
  | joinless h =>
    cases hd with
    | joinless => rfl
    | innerJoin hne => exact absurd h hne
    | outerJoin hj => exact absurd h (List.ne_nil_of_mem hj)
  | innerJoin hne hinner =>
    cases hd with
    | joinless h => exact absurd h hne
    | innerJoin => rfl
    | outerJoin hj houter =>
      rw [hinner _ hj] at houter
      cases houter
  | outerJoin hj houter =>
    cases hd with
    | joinless h => exact absurd h (List.ne_nil_of_mem hj)
    | innerJoin _ hinner =>
      rw [hinner _ hj] at houter
      cases houter
    | outerJoin => rfl
  | left _ _ h ihl ihr =>
    cases hd with
    | left hl => exact ihl hl
    | right hl hr h' =>
      -- each operand is no dearer than the other, so both cost the same
      obtain rfl := ihl hl
      obtain rfl := ihr hr
      exact Cost.le_antisymm (Cost.le_iff.2 h') (Cost.le_iff.2 h)
  | right _ _ h ihl ihr =>
    cases hd with
    | left hl hr h' =>
      obtain rfl := ihl hl
      obtain rfl := ihr hr
      exact Cost.le_antisymm (Cost.le_iff.2 h') (Cost.le_iff.2 h)
    | right _ hr => exact ihr hr

/-- The cost that is computed is the one that the filter has. -/
theorem costs_iff (h : f.InShape) : f.Costs c ↔ c = f.cost := by
  constructor
  · exact fun hc => hc.unique (costs_cost h)
  · rintro rfl
    exact costs_cost h

end Filter

end RowFilter
