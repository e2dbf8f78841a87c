import Mathlib.Data.Finset.Card
import Mathlib.Data.List.Dedup
import RowFilter.Proofs.Sessions
import RowFilter.ValueSet

/-!
# The parameters of a complement

A parameter is told apart from others by its leaf: the chain, the operator and the number. The
complement turns the comparisons outside existence tests into their opposites and leaves those
inside as they are. So the comparisons of the two filters correspond place by place, but two
places may be one parameter in the one filter and two in the other: this happens exactly where a
parameter outside meets one inside, or turns into one.
-/

namespace RowFilter

/-! ## Places of comparisons -/

/-- A comparison, and whether it stands inside an existence test. -/
structure Placed where
  inside : Bool
  leaf : Leaf

namespace Placed

/-- The comparison in its place in the complement. -/
def turned (p : Placed) : Leaf :=
  if p.inside then p.leaf else p.leaf.complement

/-- The comparison is with a parameter. -/
def isParameter (p : Placed) : Bool :=
  p.leaf.operand.isParameter

/-- Outside of existence tests complementing a filter complements its comparisons. -/
theorem turned_outside {p : Placed} (h : p.inside = false) : p.turned = p.leaf.complement := by
  rw [turned, h]
  rfl

theorem turned_inside {p : Placed} (h : p.inside = true) : p.turned = p.leaf := by
  rw [turned, h]
  rfl

/-- Parameters keep their numbers on both sides. -/
theorem operand_turned (p : Placed) : p.turned.operand = p.leaf.operand := by
  unfold turned
  split <;> rfl

end Placed

/-- No comparison is its own opposite. -/
theorem Leaf.complement_ne (l : Leaf) : l.complement ≠ l := by
  intro h
  have hop : l.shape.op.dual = l.shape.op := congrArg (fun l => l.shape.op) h
  exact RelOp.dual_ne _ hop

theorem Leaf.complement_inj {l l' : Leaf} : l.complement = l'.complement ↔ l = l' := by
  refine ⟨fun h => ?_, congrArg _⟩
  rw [← l.complement_complement, h, Leaf.complement_complement]

namespace Filter

/-- The comparisons from left to right in their places, for a filter that itself stands inside an
existence test or not. -/
def placed (inside : Bool) : Filter → List Placed
  | opened _ => []
  | closed _ => []
  | compare l => [⟨inside, l⟩]
  | existence _ _ _ sub => sub.placed true
  | junction _ _ left right => left.placed inside ++ right.placed inside

/-- The places are those of the comparisons, from left to right. -/
theorem map_leaf_placed (f : Filter) (inside : Bool) :
    (f.placed inside).map Placed.leaf = f.leaves := by
  induction f generalizing inside with
  | opened | closed | compare => rfl
  | existence e c negated sub ih => exact ih true
  | junction e kind left right ihl ihr =>
    rw [placed, List.map_append, ihl, ihr, leaves_junction]

/-- A filter that is inside already turns nowhere. -/
theorem map_turned_placed_inside (f : Filter) : (f.placed true).map Placed.turned = f.leaves := by
  induction f with
  | opened | closed | compare => rfl
  | existence e c negated sub ih => exact ih
  | junction e kind left right ihl ihr =>
    rw [placed, List.map_append, ihl, ihr, leaves_junction]

/-- The comparisons of the complement are those of the filter, turned in their places. -/
theorem leaves_complement (f : Filter) :
    f.complement.leaves = (f.placed false).map Placed.turned := by
  induction f with
  | opened | closed | compare => rfl
  | existence e c negated sub => exact sub.map_turned_placed_inside.symm
  | junction e kind left right ihl ihr =>
    rw [complement, leaves_junction, ihl, ihr, placed, List.map_append]

theorem length_leaves_complement (f : Filter) :
    f.complement.leaves.length = f.leaves.length := by
  rw [leaves_complement, ← f.map_leaf_placed false, List.length_map, List.length_map]

theorem isBound_complement (f : Filter) : f.complement.isBound = f.isBound := by
  have hleaves : f.complement.leaves.map Leaf.operand = f.leaves.map Leaf.operand := by
    rw [leaves_complement, ← f.map_leaf_placed false, List.map_map, List.map_map]
    exact List.map_congr_left fun p _ => p.operand_turned
  have hall : ∀ g : Filter,
      g.isBound = (g.leaves.map Leaf.operand).all fun o => decide (o ≠ .unbound) := by
    intro g
    rw [List.all_map]
    rfl
  rw [hall, hall, hleaves]

/-! ## Parameters inside and outside -/

/-- The parameters that stand inside existence tests, or outside. -/
def parametersAt (inside : Bool) (f : Filter) : Finset Leaf :=
  (((f.placed false).filter fun p => p.inside == inside && p.isParameter).map
    Placed.leaf).toFinset

/-- The parameters on one side are those that have a place there. -/
theorem mem_parametersAt {f : Filter} {inside : Bool} {l : Leaf} :
    l ∈ f.parametersAt inside ↔
      ∃ p ∈ f.placed false, p.isParameter = true ∧ p.inside = inside ∧ p.leaf = l := by
  simp only [parametersAt, List.mem_toFinset, List.mem_map, List.mem_filter, Bool.and_eq_true,
    beq_iff_eq]
  constructor
  · rintro ⟨p, ⟨hp, hinside, hparam⟩, rfl⟩
    exact ⟨p, hp, hparam, hinside, rfl⟩
  · rintro ⟨p, hp, hparam, hinside, rfl⟩
    exact ⟨p, ⟨hp, hinside, hparam⟩, rfl⟩

/-- No parameter outside is a parameter inside, nor turns into one. -/
def KeepsApart (f : Filter) : Prop :=
  ∀ l ∈ f.parametersAt false, l ∉ f.parametersAt true ∧ l.complement ∉ f.parametersAt true

instance (f : Filter) : Decidable f.KeepsApart :=
  inferInstanceAs (Decidable (∀ l ∈ f.parametersAt false, _))

/-- Each parameter is on one of the sides, or on both. -/
theorem toFinset_parameters (f : Filter) :
    f.parameters.toFinset = f.parametersAt false ∪ f.parametersAt true := by
  ext l
  rw [List.mem_toFinset, parameters, List.mem_filter, ← f.map_leaf_placed false, List.mem_map,
    Finset.mem_union, mem_parametersAt, mem_parametersAt]
  constructor
  · rintro ⟨⟨p, hp, rfl⟩, hparam⟩
    cases hinside : p.inside with
    | false => exact .inl ⟨p, hp, hparam, hinside, rfl⟩
    | true => exact .inr ⟨p, hp, hparam, hinside, rfl⟩
  · rintro (⟨p, hp, hparam, -, rfl⟩ | ⟨p, hp, hparam, -, rfl⟩) <;>
      exact ⟨⟨p, hp, rfl⟩, hparam⟩

/-- Complementing changes the parameters outside and keeps those inside. -/
theorem toFinset_parameters_complement (f : Filter) :
    f.complement.parameters.toFinset =
      (f.parametersAt false).image Leaf.complement ∪ f.parametersAt true := by
  ext l
  rw [List.mem_toFinset, parameters, List.mem_filter, leaves_complement, List.mem_map,
    Finset.mem_union, Finset.mem_image, mem_parametersAt]
  constructor
  · rintro ⟨⟨p, hp, rfl⟩, hparam⟩
    rw [p.operand_turned] at hparam
    cases hinside : p.inside with
    | false =>
      exact .inl ⟨p.leaf, mem_parametersAt.2 ⟨p, hp, hparam, hinside, rfl⟩,
        (Placed.turned_outside hinside).symm⟩
    | true => exact .inr ⟨p, hp, hparam, hinside, (Placed.turned_inside hinside).symm⟩
  · rintro (⟨k, hk, rfl⟩ | ⟨p, hp, hparam, hinside, rfl⟩)
    · obtain ⟨p, hp, hparam, hinside, rfl⟩ := mem_parametersAt.1 hk
      exact ⟨⟨p, hp, Placed.turned_outside hinside⟩, hparam⟩
    · exact ⟨⟨p, hp, Placed.turned_inside hinside⟩, hparam⟩

end Filter

/-! ## Order of first occurrence -/

section FirstOccurrence

variable {α : Type} [DecidableEq α]

/-- What is left of a list has its first occurrences in the same order. -/
theorem idxOf_lt_of_filter {p : α → Bool} {a b : α} {xs : List α} (ha : p a = true)
    (hb : p b = true) (h : (xs.filter p).idxOf a < (xs.filter p).idxOf b) :
    xs.idxOf a < xs.idxOf b := by
  induction xs with
  | nil => exact h
  | cons x xs ih =>
    by_cases hx : p x = true
    · rw [List.filter_cons_of_pos hx] at h
      by_cases hxb : x = b
      · -- nothing comes before the head
        rw [hxb, List.idxOf_cons_self] at h
        omega
      · rw [List.idxOf_cons_ne _ hxb] at h ⊢
        by_cases hxa : x = a
        · rw [hxa, List.idxOf_cons_self]
          omega
        · rw [List.idxOf_cons_ne _ hxa] at h ⊢
          have hrest := ih (by omega)
          omega
    · rw [List.filter_cons_of_neg hx] at h
      have hxa : x ≠ a := fun hxa => hx (hxa ▸ ha)
      have hxb : x ≠ b := fun hxb => hx (hxb ▸ hb)
      rw [List.idxOf_cons_ne _ hxa, List.idxOf_cons_ne _ hxb]
      have hrest := ih h
      omega

/-- Without its repetitions a list is in the order of first occurrences. -/
theorem pairwise_idxOf_eraseDups (xs : List α) :
    xs.eraseDups.Pairwise fun a b => xs.idxOf a < xs.idxOf b := by
  cases xs with
  | nil => exact List.Pairwise.nil
  | cons x xs =>
    have hother : ∀ {a}, a ∈ (xs.filter fun y => !y == x).eraseDups → (!a == x) = true := by
      intro a ha
      exact (List.mem_filter.1 (List.mem_eraseDups.1 ha)).2
    have hne : ∀ {a : α}, (!a == x) = true → x ≠ a := by
      intro a ha hxa
      simp [hxa] at ha
    rw [List.eraseDups_cons, List.pairwise_cons]
    constructor
    · intro b hb
      rw [List.idxOf_cons_self, List.idxOf_cons_ne _ (hne (hother hb))]
      omega
    · -- dropping the later occurrences of the head leaves the order of the others
      have hrest := pairwise_idxOf_eraseDups (xs.filter fun y => !y == x)
      refine hrest.imp_of_mem ?_
      intro a b ha hb hlt
      rw [List.idxOf_cons_ne _ (hne (hother ha)), List.idxOf_cons_ne _ (hne (hother hb))]
      have hxs : xs.idxOf a < xs.idxOf b :=
        idxOf_lt_of_filter (p := fun y => !y == x) (hother ha) (hother hb) hlt
      omega
termination_by xs.length
decreasing_by exact Nat.lt_succ_of_le (List.length_filter_le _ _)

/-- Without its repetitions a list has no repetitions. -/
theorem nodup_eraseDups (xs : List α) : xs.eraseDups.Nodup := by
  refine (pairwise_idxOf_eraseDups xs).imp ?_
  intro a b hlt hab
  rw [hab] at hlt
  exact Nat.lt_irrefl _ hlt

theorem eraseDups_of_nodup {xs : List α} (h : xs.Nodup) : xs.eraseDups = xs := by
  induction xs with
  | nil => rfl
  | cons x xs ih =>
    obtain ⟨hx, hxs⟩ := List.nodup_cons.1 h
    have hrest : (xs.filter fun y => !y == x) = xs := by
      refine List.filter_eq_self.2 fun y hy => ?_
      have hne : y ≠ x := fun hyx => hx (hyx ▸ hy)
      simp [hne]
    rw [List.eraseDups_cons, hrest, ih hxs]

/-- What is left without repetitions is the set of the items. -/
theorem length_eraseDups (xs : List α) :
    xs.eraseDups.length = xs.toFinset.card := by
  rw [← List.toFinset_card_of_nodup (nodup_eraseDups xs)]
  congr 1
  ext x
  rw [List.mem_toFinset, List.mem_toFinset, List.mem_eraseDups]

end FirstOccurrence

/-! ## Slots -/

/-- A bound filter has one slot for each of its parameters. -/
theorem ValueSet.length_slots_ofFilter {f : Filter} (h : f.isBound = true) :
    (ofFilter f).slots.length = f.parameters.toFinset.card := by
  have hbind : f.bind = f := by
    rw [Filter.bind, if_pos h]
  rw [ofFilter, hbind, empty, List.length_map, length_eraseDups]

/-- How many slots the complement has: those of the filter, more by the parameters that stand
outside and inside, fewer by those that turn into one inside. -/
theorem ValueSet.length_slots_complement {f : Filter} (h : f.isBound = true) :
    (ofFilter f.complement).slots.length +
        ((f.parametersAt false).image Leaf.complement ∩ f.parametersAt true).card =
      (ofFilter f).slots.length + (f.parametersAt false ∩ f.parametersAt true).card := by
  have h' : f.complement.isBound = true := f.isBound_complement.trans h
  rw [length_slots_ofFilter h, length_slots_ofFilter h', f.toFinset_parameters,
    f.toFinset_parameters_complement, Finset.card_union_add_card_inter,
    Finset.card_union_add_card_inter]
  -- turning merges no two parameters outside
  rw [Finset.card_image_of_injective _ fun _ _ => Leaf.complement_inj.1]

/-- If no two parameters fall together, there are as many slots as before. -/
theorem ValueSet.length_slots_complement_of_keepsApart {f : Filter} (h : f.isBound = true)
    (hapart : f.KeepsApart) :
    (ofFilter f.complement).slots.length = (ofFilter f).slots.length := by
  have hlaw := length_slots_complement h
  have hmeet : f.parametersAt false ∩ f.parametersAt true = ∅ := by
    rw [← Finset.disjoint_iff_inter_eq_empty, Finset.disjoint_left]
    exact fun l hl => (hapart l hl).1
  have hturn : (f.parametersAt false).image Leaf.complement ∩ f.parametersAt true = ∅ := by
    rw [← Finset.disjoint_iff_inter_eq_empty, Finset.disjoint_left]
    intro l hl
    obtain ⟨k, hk, rfl⟩ := Finset.mem_image.1 hl
    exact (hapart k hk).2
  rw [hmeet, hturn] at hlaw
  exact hlaw

/-! ## Places that are one parameter -/

namespace Filter

/-- There is a parameter at this place. -/
def HasParameter (f : Filter) (n : Nat) : Prop :=
  ∃ l, f.leaves[n]? = some l ∧ l.operand.isParameter = true

/-- Each parameter has a place, which says on which side it is. -/
theorem hasParameter_iff {f : Filter} {n : Nat} :
    f.HasParameter n ↔ ∃ p, (f.placed false)[n]? = some p ∧ p.isParameter = true := by
  rw [HasParameter, ← f.map_leaf_placed false, List.getElem?_map]
  constructor
  · rintro ⟨l, hl, hparam⟩
    obtain ⟨p, hp, rfl⟩ := Option.map_eq_some_iff.1 hl
    exact ⟨p, hp, hparam⟩
  · rintro ⟨p, hp, hparam⟩
    exact ⟨p.leaf, Option.map_eq_some_iff.2 ⟨p, hp, rfl⟩, hparam⟩

/-- The complement has its parameters at the same places. -/
theorem hasParameter_complement (f : Filter) (n : Nat) :
    f.complement.HasParameter n ↔ f.HasParameter n := by
  rw [hasParameter_iff (f := f), HasParameter, leaves_complement, List.getElem?_map]
  constructor
  · rintro ⟨l, hl, hparam⟩
    obtain ⟨p, hp, rfl⟩ := Option.map_eq_some_iff.1 hl
    rw [p.operand_turned] at hparam
    exact ⟨p, hp, hparam⟩
  · rintro ⟨p, hp, hparam⟩
    refine ⟨p.turned, Option.map_eq_some_iff.2 ⟨p, hp, rfl⟩, ?_⟩
    rw [p.operand_turned]
    exact hparam

/-- In the complement the same places are one parameter. -/
def KeepsPlaces (f : Filter) : Prop :=
  ∀ m n, f.HasParameter m → f.HasParameter n →
    (f.complement.leaves[m]? = f.complement.leaves[n]? ↔ f.leaves[m]? = f.leaves[n]?)

/-- Two places turn alike if they are alike, unless one is inside and the other is not. -/
theorem turned_eq_iff {f : Filter} (hapart : f.KeepsApart) {p q : Placed}
    (hp : p ∈ f.placed false) (hq : q ∈ f.placed false) (hpp : p.isParameter = true)
    (hqp : q.isParameter = true) : p.turned = q.turned ↔ p.leaf = q.leaf := by
  have hcross : ∀ {p q : Placed}, p ∈ f.placed false → q ∈ f.placed false →
      p.isParameter = true → q.isParameter = true → p.inside = false → q.inside = true →
      p.leaf ≠ q.leaf ∧ p.leaf.complement ≠ q.leaf := by
    intro p q hp hq hpp hqp hpo hqi
    have hinner : q.leaf ∈ f.parametersAt true := mem_parametersAt.2 ⟨q, hq, hqp, hqi, rfl⟩
    obtain ⟨hsame, hturn⟩ := hapart p.leaf (mem_parametersAt.2 ⟨p, hp, hpp, hpo, rfl⟩)
    exact ⟨fun h => hsame (h ▸ hinner), fun h => hturn (h ▸ hinner)⟩
  cases hpo : p.inside <;> cases hqi : q.inside
  · rw [Placed.turned_outside hpo, Placed.turned_outside hqi]
    exact Leaf.complement_inj
  · obtain ⟨hsame, hturn⟩ := hcross hp hq hpp hqp hpo hqi
    rw [Placed.turned_outside hpo, Placed.turned_inside hqi]
    exact ⟨fun h => absurd h hturn, fun h => absurd h hsame⟩
  · obtain ⟨hsame, hturn⟩ := hcross hq hp hqp hpp hqi hpo
    rw [Placed.turned_inside hpo, Placed.turned_outside hqi]
    exact ⟨fun h => absurd h.symm hturn, fun h => absurd h.symm hsame⟩
  · rw [Placed.turned_inside hpo, Placed.turned_inside hqi]

/-- To keep places equal or different is to keep the sides apart. -/
theorem keepsPlaces_iff (f : Filter) : f.KeepsPlaces ↔ f.KeepsApart := by
  have hleaf : ∀ {n : Nat} {p : Placed}, (f.placed false)[n]? = some p →
      f.leaves[n]? = some p.leaf ∧ f.complement.leaves[n]? = some p.turned := by
    intro n p hp
    rw [leaves_complement, ← f.map_leaf_placed false, List.getElem?_map, List.getElem?_map, hp]
    exact ⟨rfl, rfl⟩
  constructor
  · intro hplaces l hl
    obtain ⟨p, hp, hpp, hpo, rfl⟩ := mem_parametersAt.1 hl
    obtain ⟨m, hm⟩ := List.mem_iff_getElem?.1 hp
    -- a place inside that is one with `p`, before or after turning, is so before and after
    have hinner : ∀ q ∈ f.placed false, q.isParameter = true → q.inside = true →
        (p.leaf.complement = q.leaf ↔ p.leaf = q.leaf) := by
      intro q hq hqp hqi
      obtain ⟨n, hn⟩ := List.mem_iff_getElem?.1 hq
      have hpair := hplaces m n (hasParameter_iff.2 ⟨p, hm, hpp⟩) (hasParameter_iff.2 ⟨q, hn, hqp⟩)
      rw [(hleaf hm).1, (hleaf hm).2, (hleaf hn).1, (hleaf hn).2, Option.some_inj,
        Option.some_inj, Placed.turned_outside hpo, Placed.turned_inside hqi] at hpair
      exact hpair
    constructor <;> intro hmem <;> obtain ⟨q, hq, hqp, hqi, heq⟩ := mem_parametersAt.1 hmem
    · have hturn := (hinner q hq hqp hqi).2 heq.symm
      exact p.leaf.complement_ne (hturn.trans heq)
    · have hsame := (hinner q hq hqp hqi).1 heq.symm
      exact p.leaf.complement_ne (heq.symm.trans hsame.symm)
  · intro hapart m n hm hn
    obtain ⟨p, hp, hpp⟩ := hasParameter_iff.1 hm
    obtain ⟨q, hq, hqp⟩ := hasParameter_iff.1 hn
    rw [(hleaf hp).1, (hleaf hp).2, (hleaf hq).1, (hleaf hq).2, Option.some_inj, Option.some_inj]
    exact turned_eq_iff hapart (List.mem_of_getElem? hp) (List.mem_of_getElem? hq) hpp hqp

end Filter

/-! ## Places of instances -/

namespace Instance

/-- The comparisons of an instance are among its nodes. -/
theorem mem_nodes_of_mem_leavesOnto {i l : Instance} {rest : List Instance}
    (h : l ∈ i.leavesOnto rest) : l ∈ i.nodes ∨ l ∈ rest := by
  induction i generalizing rest with
  | opened | closed => exact .inr h
  | compare id depth leaf =>
    rcases List.mem_cons.1 h with rfl | h
    · exact .inl (mem_nodes_self _)
    · exact .inr h
  | existence id depth e c negated sub ih =>
    rcases ih h with h | h
    · exact .inl (List.mem_cons_of_mem _ h)
    · exact .inr h
  | junction id depth e kind left right ihl ihr =>
    rcases ihl h with h | h
    · exact .inl (List.mem_cons_of_mem _ (List.mem_append_left _ h))
    · rcases ihr h with h | h
      · exact .inl (List.mem_cons_of_mem _ (List.mem_append_right _ h))
      · exact .inr h

/-- Comparisons are nodes. -/
theorem mem_nodes_of_mem_leaves {i l : Instance} (h : l ∈ i.leaves) : l ∈ i.nodes := by
  rcases mem_nodes_of_mem_leavesOnto h with h | h
  · exact h
  · exact nomatch h

/-- There is a parameter at this place. -/
def HasParameter (i : Instance) (n : Nat) : Prop :=
  ∃ l leaf, i.leaves[n]? = some l ∧ l.node = .compare leaf ∧ leaf.operand.isParameter = true

theorem filter_eq_compare {i : Instance} {l : Leaf} :
    i.filter = .compare l ↔ i.node = .compare l := by
  obtain ⟨id, depth, node⟩ := i
  cases node <;> simp [filter]

/-- The instances of comparisons stand for the comparisons, place by place. -/
theorem getElem?_leaves (i : Instance) (n : Nat) :
    i.leaves[n]?.map filter = i.filter.leaves[n]?.map Filter.compare := by
  rw [← List.getElem?_map, ← List.getElem?_map, i.filter_leaves]

/-- Instances have parameters where their filters do. -/
theorem hasParameter_filter (i : Instance) (n : Nat) :
    i.filter.HasParameter n ↔ i.HasParameter n := by
  have hget := i.getElem?_leaves n
  constructor
  · rintro ⟨leaf, hleaf, hparam⟩
    rw [hleaf] at hget
    obtain ⟨l, hl, hfilter⟩ := Option.map_eq_some_iff.1 hget
    exact ⟨l, leaf, hl, filter_eq_compare.1 hfilter, hparam⟩
  · rintro ⟨l, leaf, hl, hnode, hparam⟩
    rw [hl, Option.map_some, filter_eq_compare.2 hnode] at hget
    obtain ⟨leaf', hleaf', heq⟩ := Option.map_eq_some_iff.1 hget.symm
    obtain rfl := Filter.compare.inj heq
    exact ⟨leaf', hleaf', hparam⟩

end Instance

namespace Pool

variable {ctx : Context} {pool : Pool} {held : List Instance}

/-- In a session two places are one instance exactly if they are one comparison. -/
theorem Reached.place_eq_iff (h : Reached ctx pool held) {i : Instance} (hi : i ∈ held)
    (m n : Nat) : i.leaves[m]? = i.leaves[n]? ↔ i.filter.leaves[m]? = i.filter.leaves[n]? := by
  obtain ⟨hs, hheld⟩ := h.sound
  have hplaces : i.leaves[m]?.map Instance.filter = i.leaves[n]?.map Instance.filter ↔
      i.filter.leaves[m]? = i.filter.leaves[n]? := by
    rw [i.getElem?_leaves, i.getElem?_leaves]
    exact (Option.map_injective fun _ _ => Filter.compare.inj).eq_iff
  rw [← hplaces]
  refine ⟨congrArg _, fun hfilter => ?_⟩
  have hholds : ∀ {n : Nat} {l : Instance}, i.leaves[n]? = some l → pool.Holds l :=
    fun hl => hs.holds_nodes (hheld i hi) _
      (Instance.mem_nodes_of_mem_leaves (List.mem_of_getElem? hl))
  cases hm : i.leaves[m]? with
  | none =>
    rw [hm, Option.map_none] at hfilter
    exact (Option.map_eq_none_iff.1 hfilter.symm).symm
  | some l =>
    rw [hm, Option.map_some] at hfilter
    obtain ⟨l', hn, heq⟩ := Option.map_eq_some_iff.1 hfilter.symm
    rw [hn, hs.eq_of_filter_eq (hholds hn) (hholds hm) heq]

/-- The complement of a bound filter has as many comparisons, with parameters at the same places.
The same places are one parameter, and there are as many slots, exactly if no parameter outside of
existence tests is a parameter inside or turns into one. -/
theorem Reached.complement_parameters (h : Reached ctx pool held) {i : Instance} (hi : i ∈ held)
    (hbound : i.filter.isBound = true) :
    ∃ c pool', (serve ctx (.complement i)).run pool = (.ok [c], pool') ∧
      c.leaves.length = i.leaves.length ∧ (∀ n, c.HasParameter n ↔ i.HasParameter n) ∧
      ((∀ m n : Nat, i.HasParameter m → i.HasParameter n →
            (c.leaves[m]? = c.leaves[n]? ↔ i.leaves[m]? = i.leaves[n]?)) ∧
          (ValueSet.ofFilter c.filter).slots.length = (ValueSet.ofFilter i.filter).slots.length ↔
        i.filter.KeepsApart) := by
  obtain ⟨c, pool', hrun, hc, hreached⟩ := h.serve_complement hi
  have hlength : ∀ j : Instance, j.leaves.length = j.filter.leaves.length := by
    intro j
    rw [← List.length_map Instance.filter, j.filter_leaves, List.length_map]
  have hsame : ∀ m n : Nat, (c.leaves[m]? = c.leaves[n]? ↔ i.leaves[m]? = i.leaves[n]?) ↔
      (i.filter.complement.leaves[m]? = i.filter.complement.leaves[n]? ↔
        i.filter.leaves[m]? = i.filter.leaves[n]?) := by
    intro m n
    rw [hreached.place_eq_iff (by simp) m n, h.place_eq_iff hi m n, hc]
  refine ⟨c, pool', hrun, ?_, fun n => ?_, ?_⟩
  · rw [hlength, hlength, hc, Filter.length_leaves_complement]
  · rw [← Instance.hasParameter_filter, ← Instance.hasParameter_filter, hc,
      Filter.hasParameter_complement]
  · rw [← Filter.keepsPlaces_iff, hc]
    simp only [hsame, ← Instance.hasParameter_filter]
    refine ⟨fun h => h.1, fun hplaces => ⟨hplaces, ?_⟩⟩
    exact ValueSet.length_slots_complement_of_keepsApart hbound
      (i.filter.keepsPlaces_iff.1 hplaces)

/-! ### Two amounts -/

namespace Sample

/-- The lines of some amount whose order has a line with an amount that compares so with another
one. -/
def amounts (op : RelOp) : Filter :=
  let amount : Property := ⟨⟨"amount", .scalar .int, true⟩, "line"⟩
  let order : Property := ⟨⟨"order", .relation "order" .toOne, false⟩, "line"⟩
  let lines : Property := ⟨⟨"lines", .relation "line" .toMany, false⟩, "order"⟩
  .junction "line" .and (.compare ⟨"line", ⟨⟨[], ⟨amount, false⟩⟩, .eq⟩, .bound 0⟩)
    (.existence "line" ⟨[⟨order, false⟩], ⟨lines, false⟩⟩ false
      (.compare ⟨"line", ⟨⟨[], ⟨amount, false⟩⟩, op⟩, .bound 0⟩))

theorem exists_reached_amounts (op : RelOp) :
    ∃ pool i, Reached context pool [i] ∧ i.filter = amounts op := by
  apply exists_reached
  cases op <;> decide +kernel

/-- Where the inner comparison is by another pair of operators, the parameters stay apart. -/
theorem complement_parameters_amounts :
    ∃ pool i c pool', Reached context pool [i] ∧ i.filter = amounts .gt ∧
      (serve context (.complement i)).run pool = (.ok [c], pool') ∧
      (ValueSet.ofFilter c.filter).slots.length = (ValueSet.ofFilter i.filter).slots.length := by
  obtain ⟨pool, i, hreached, hi⟩ := exists_reached_amounts .gt
  have hbound : i.filter.isBound = true := by
    rw [hi]
    decide +kernel
  obtain ⟨c, pool', hrun, -, -, hiff⟩ :=
    Reached.complement_parameters hreached (List.mem_singleton_self i) hbound
  have hapart : i.filter.KeepsApart := by
    rw [hi]
    decide +kernel
  exact ⟨pool, i, c, pool', hreached, hi, hrun, (hiff.2 hapart).2⟩

/-- Where it is by the opposite one, the complement has one parameter in place of two. -/
theorem complement_merges_amounts :
    ∃ pool i c pool', Reached context pool [i] ∧ i.filter.isBound = true ∧
      (serve context (.complement i)).run pool = (.ok [c], pool') ∧
      i.HasParameter 0 ∧ i.HasParameter 1 ∧ i.leaves[0]? ≠ i.leaves[1]? ∧
      c.leaves[0]? = c.leaves[1]? ∧ (ValueSet.ofFilter i.filter).slots.length = 2 ∧
      (ValueSet.ofFilter c.filter).slots.length = 1 := by
  obtain ⟨pool, i, hreached, hi⟩ := exists_reached_amounts .ne
  have hmem : i ∈ [i] := List.mem_singleton_self i
  obtain ⟨c, pool', hrun, hc, hreached'⟩ := hreached.serve_complement hmem
  refine ⟨pool, i, c, pool', hreached, ?_, hrun, ?_, ?_, ?_, ?_, ?_, ?_⟩
  · rw [hi]
    decide +kernel
  · rw [← Instance.hasParameter_filter, hi]
    exact ⟨_, rfl, rfl⟩
  · rw [← Instance.hasParameter_filter, hi]
    exact ⟨_, rfl, rfl⟩
  · rw [Ne, hreached.place_eq_iff hmem 0 1, hi]
    decide +kernel
  · rw [hreached'.place_eq_iff (List.mem_cons_self ..) 0 1, hc, hi]
    decide +kernel
  · rw [hi]
    decide +kernel
  · rw [hc, hi]
    decide +kernel

end Sample

end Pool

end RowFilter
