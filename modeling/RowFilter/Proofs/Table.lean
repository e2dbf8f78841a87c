import RowFilter.Pool.Basic

/-!
# The table of instances

What makes the numbers of a pool trustworthy. Every instance in the table stands under its own
key, has a number of its own and the depth its parts say, and its parts are in the table too
(`Canonical`). From this two instances of one pool are equal as soon as their numbers are, and
as soon as their filters are; and the only operation on the table, `give`, keeps all of it.
-/

namespace RowFilter

/-- Induction over the parts, whatever the node is. -/
theorem Instance.induct_parts {motive : Instance → Prop}
    (step : ∀ i : Instance, (∀ p ∈ i.node.parts, motive p) → motive i) (i : Instance) :
    motive i := by
  induction i with
  | opened id depth e => exact step _ (by simp [Node.parts])
  | closed id depth e => exact step _ (by simp [Node.parts])
  | compare id depth l => exact step _ (by simp [Node.parts])
  | existence id depth e c negated sub ih => exact step _ (by simpa [Node.parts] using ih)
  | junction id depth e kind left right ihl ihr =>
    exact step _ (by simpa [Node.parts] using ⟨ihl, ihr⟩)

theorem Instance.mem_nodes_self (i : Instance) : i ∈ i.nodes := by
  obtain ⟨_, _, n⟩ := i
  cases n <;> simp [nodes]

/-- What holds of an instance and passes on to parts holds of everything beneath. -/
theorem Instance.forall_nodes {P : Instance → Prop}
    (hP : ∀ i : Instance, P i → ∀ p ∈ i.node.parts, P p) {i : Instance} (hi : P i) :
    ∀ j ∈ i.nodes, P j := by
  induction i with
  | opened | closed | compare => simpa [nodes] using hi
  | existence id depth e c negated sub ih =>
    have hs : P sub := hP _ hi sub (by simp [Node.parts])
    simpa [nodes, hi] using ih hs
  | junction id depth e kind left right ihl ihr =>
    have hl : P left := hP _ hi left (by simp [Node.parts])
    have hr : P right := hP _ hi right (by simp [Node.parts])
    intro j hj
    simp only [nodes, List.mem_cons, List.mem_append] at hj
    rcases hj with rfl | hj | hj
    · exact hi
    · exact ihl hl j hj
    · exact ihr hr j hj

namespace Pool

/-- The pool has given out this instance. -/
def Holds (pool : Pool) (i : Instance) : Prop :=
  pool.instances[i.key]? = some i

/-- Everything the one pool has given out, the other has given out too. -/
def Grows (pool pool' : Pool) : Prop :=
  ∀ i, pool.Holds i → pool'.Holds i

/-- The table gives every filter one instance. -/
structure Canonical (pool : Pool) : Prop where
  /-- An instance stands under its own key. -/
  keyed : ∀ {k : Node Nat} {i : Instance}, pool.instances[k]? = some i → i.key = k
  /-- The next number is free. -/
  numbered : ∀ {i : Instance}, pool.Holds i → i.id < pool.instances.size
  /-- No two instances share a number. -/
  distinct : ∀ {i j : Instance}, pool.Holds i → pool.Holds j → i.id = j.id → i = j
  /-- Parts are in the table. -/
  closed : ∀ {i : Instance}, pool.Holds i → ∀ p ∈ i.node.parts, pool.Holds p
  /-- The depth is the one that the parts say. -/
  measured : ∀ {i : Instance}, pool.Holds i → i.depth = i.node.depth Instance.depth

theorem Grows.refl (pool : Pool) : Grows pool pool :=
  fun _ h => h

theorem Grows.trans {p q r : Pool} (hpq : Grows p q) (hqr : Grows q r) : Grows p r :=
  fun i h => hqr i (hpq i h)

theorem canonical_empty : Canonical empty := by
  constructor <;> simp [empty, Holds]

namespace Canonical

variable {pool : Pool}

theorem holds_of_getElem? (hc : Canonical pool) {k : Node Nat} {i : Instance}
    (h : pool.instances[k]? = some i) : pool.Holds i := by
  rw [Holds, hc.keyed h]
  exact h

/-- Instances with one key are one instance. -/
theorem eq_of_key_eq {i j : Instance} (hi : pool.Holds i) (hj : pool.Holds j)
    (h : i.key = j.key) : i = j := by
  rw [Holds] at hi hj
  rw [h, hj] at hi
  exact (Option.some.inj hi).symm

/-- Nodes over instances of the pool are told apart by the numbers of the parts. -/
theorem node_eq_of_keys_eq (hc : Canonical pool) {n n' : Node Instance}
    (hn : ∀ p ∈ n.parts, pool.Holds p) (hn' : ∀ p ∈ n'.parts, pool.Holds p)
    (h : n.map Instance.id = n'.map Instance.id) : n = n' :=
  Node.eq_of_map_eq (fun p hp p' hp' he => hc.distinct (hn p hp) (hn' p' hp') he) h

/-- One filter has one instance. -/
theorem eq_of_filter_eq (hc : Canonical pool) {i j : Instance} (hi : pool.Holds i)
    (hj : pool.Holds j) (h : i.filter = j.filter) : i = j := by
  induction i using Instance.induct_parts generalizing j with
  | step i ih =>
    -- the nodes agree but for their parts, and equal parts are one instance by induction
    have hnode : i.node.map Instance.filter = j.node.map Instance.filter := by
      rw [← Instance.node_filter, ← Instance.node_filter, h]
    have heq : i.node = j.node := by
      refine Node.eq_of_map_eq (fun p hp p' hp' he => ?_) hnode
      exact ih p hp (hc.closed hi p hp) (hc.closed hj p' hp') he
    have hkey : i.key = j.key := by
      rw [Instance.key, Instance.key, heq]
    exact eq_of_key_eq hi hj hkey

/-- Numbers are equal exactly where filters are. -/
theorem id_eq_iff (hc : Canonical pool) {i j : Instance} (hi : pool.Holds i)
    (hj : pool.Holds j) : i.id = j.id ↔ i.filter = j.filter := by
  constructor
  · intro h
    rw [hc.distinct hi hj h]
  · intro h
    rw [hc.eq_of_filter_eq hi hj h]

/-- The depth kept with an instance is that of its filter. -/
theorem depth_eq (hc : Canonical pool) {i : Instance} (hi : pool.Holds i) :
    i.depth = i.filter.depth := by
  induction i using Instance.induct_parts with
  | step i ih =>
    have hparts : ∀ p ∈ i.node.parts, p.depth = p.filter.depth :=
      fun p hp => ih p hp (hc.closed hi p hp)
    rw [hc.measured hi, Instance.filter_eq, Node.depth_filter, Node.depth_map]
    exact Node.depth_congr hparts

theorem holds_sub (hc : Canonical pool) {id depth : Nat} {e : String} {c : Chain}
    {negated : Bool} {sub : Instance}
    (h : pool.Holds ⟨id, depth, .existence e c negated sub⟩) : pool.Holds sub :=
  hc.closed h sub (by simp [Node.parts])

theorem holds_operands (hc : Canonical pool) {id depth : Nat} {e : String} {kind : Junction}
    {left right : Instance} (h : pool.Holds ⟨id, depth, .junction e kind left right⟩) :
    pool.Holds left ∧ pool.Holds right :=
  ⟨hc.closed h left (by simp [Node.parts]), hc.closed h right (by simp [Node.parts])⟩

/-- Everything beneath an instance of the pool is in the pool. -/
theorem holds_nodes (hc : Canonical pool) {i : Instance} (hi : pool.Holds i) :
    ∀ j ∈ i.nodes, pool.Holds j :=
  Instance.forall_nodes (fun _ h => hc.closed h) hi

end Canonical

/-! ## Giving out an instance -/

/-- The pool with one more instance: that of a node over its instances which it does not know. -/
theorem Canonical.insert {pool : Pool} (hc : Canonical pool) (pool' : Pool) {n : Node Instance}
    (hn : ∀ p ∈ n.parts, pool.Holds p) (hnew : pool.instances[n.map Instance.id]? = none)
    {fresh : Instance}
    (hfresh : fresh = ⟨pool.instances.size, n.depth Instance.depth, n⟩)
    (hpool : pool'.instances = pool.instances.insert (n.map Instance.id) fresh) :
    Canonical pool' ∧ Grows pool pool' ∧ pool'.Holds fresh := by
  have hkey : fresh.key = n.map Instance.id := by rw [hfresh, Instance.key]
  -- whatever the new table finds is the new instance or was found before
  have hold : ∀ {k : Node Nat} {i : Instance}, pool'.instances[k]? = some i →
      i = fresh ∨ pool.instances[k]? = some i := by
    intro k i h
    rw [hpool, Std.HashMap.getElem?_insert] at h
    split at h
    · exact .inl (Option.some.inj h).symm
    · exact .inr h
  have hgrows : Grows pool pool' := by
    intro i hi
    rw [Holds, hpool, Std.HashMap.getElem?_insert]
    split
    · next he =>
      -- no old instance stands under the new key, for it was free
      rw [Holds, ← eq_of_beq he, hnew] at hi
      cases hi
    · exact hi
  have hin : pool'.Holds fresh := by
    rw [Holds, hkey, hpool, Std.HashMap.getElem?_insert_self]
  -- the key was free, so the table grows and the number of the new instance is passed
  have hsize : pool'.instances.size = pool.instances.size + 1 := by
    rw [hpool, Std.HashMap.size_insert, if_neg]
    rw [← Std.HashMap.isSome_getElem?_iff_mem, hnew]
    simp
  refine ⟨⟨?keyed, ?numbered, ?distinct, ?closed, ?measured⟩, hgrows, hin⟩
  case keyed =>
    intro k i h
    rw [hpool, Std.HashMap.getElem?_insert] at h
    split at h
    · next he =>
      rw [← Option.some.inj h, hkey]
      exact eq_of_beq he
    · exact hc.keyed h
  case numbered =>
    intro i hi
    rcases hold hi with rfl | h
    · rw [hsize, hfresh]
      exact Nat.lt_succ_self _
    · have := hc.numbered h
      omega
  case distinct =>
    intro i j hi hj he
    have hid : fresh.id = pool.instances.size := by rw [hfresh]
    rcases hold hi with rfl | hi <;> rcases hold hj with rfl | hj
    · rfl
    -- a new and an old instance: old numbers are below the new one
    · have := hc.numbered hj
      omega
    · have := hc.numbered hi
      omega
    · exact hc.distinct hi hj he
  case closed =>
    intro i hi p hp
    rcases hold hi with rfl | hi
    · rw [hfresh] at hp
      exact hgrows p (hn p hp)
    · exact hgrows p (hc.closed hi p hp)
  case measured =>
    intro i hi
    rcases hold hi with rfl | hi
    · rw [hfresh]
    · exact hc.measured hi

/-- Giving out a node over instances of the pool gives an instance with that node, and adds
nothing but instances. -/
theorem give_spec {pool : Pool} (hc : Canonical pool) {n : Node Instance}
    (hn : ∀ p ∈ n.parts, pool.Holds p) :
    Canonical (give n pool).2 ∧ Grows pool (give n pool).2 ∧
      (give n pool).2.Holds (give n pool).1 ∧ (give n pool).1.node = n ∧
      (give n pool).2.complements = pool.complements ∧ (give n pool).2.bound = pool.bound ∧
      (give n pool).2.parsed = pool.parsed := by
  simp only [give]
  split
  · next known hk =>
    have hi := hc.holds_of_getElem? hk
    -- one key is one node: parts with equal numbers are equal
    have hnode : known.node = n :=
      hc.node_eq_of_keys_eq (hc.closed hi) hn (hc.keyed hk)
    exact ⟨hc, Grows.refl _, hi, hnode, rfl, rfl, rfl⟩
  · next hk =>
    obtain ⟨hc', hgrows, hi⟩ := hc.insert { pool with instances := _ } hn hk rfl rfl
    exact ⟨hc', hgrows, hi, rfl, rfl, rfl, rfl⟩

end Pool

end RowFilter
