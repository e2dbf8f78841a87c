import RowFilter.Proofs.Sessions

/-!
# The complement in a session

Complements are computed node by node and remembered in both directions. Whether or not anything
is remembered, and however the session goes on between two requests, the complement of the
complement is the instance itself; so no two instances share a complement.
-/

namespace RowFilter.Pool

variable {ctx : Context} {pool : Pool} {held : List Instance}

/-! ## Sessions that go on -/

/-- From the one pool and the instances held, a session leads to the other. -/
inductive Leads (ctx : Context) (pool : Pool) (held : List Instance) :
    Pool → List Instance → Prop where
  | refl : Leads ctx pool held pool held
  /-- A request about instances that are held by then. -/
  | served {pool' : Pool} {held' : List Instance} (q : Request)
      (hq : ∀ i ∈ q.arguments, i ∈ held') (h : Leads ctx pool held pool' held') :
      Leads ctx pool held ((serve ctx q).run pool').2
        (handedOut ((serve ctx q).run pool').1 ++ held')
  /-- A part of an instance that is held by then. -/
  | part {pool' : Pool} {held' : List Instance} {i p : Instance} (hi : i ∈ held')
      (hp : p ∈ i.node.parts) (h : Leads ctx pool held pool' held') :
      Leads ctx pool held pool' (p :: held')

theorem Leads.reached {pool' : Pool} {held' : List Instance} (h : Leads ctx pool held pool' held')
    (hstart : Reached ctx pool held) : Reached ctx pool' held' := by
  induction h with
  | refl => exact hstart
  | served q hq h ih => exact .served q hq ih
  | part hi hp h ih => exact .part hi hp ih

/-- What is held stays held. -/
theorem Leads.mem {pool' : Pool} {held' : List Instance} (h : Leads ctx pool held pool' held') :
    ∀ i ∈ held, i ∈ held' := by
  induction h with
  | refl => exact fun i hi => hi
  | served q hq h ih => exact fun i hi => List.mem_append_right _ (ih i hi)
  | part hi hp h ih => exact fun i hi => List.mem_cons_of_mem _ (ih i hi)

/-! ## Computing without a memory -/

/-- The pool with nothing remembered about complements. -/
def forgetComplements (pool : Pool) : Pool :=
  { pool with complements := ∅ }

theorem Sound.forgetComplements (hs : Sound ctx pool) : Sound ctx pool.forgetComplements := by
  refine { (hs.congr rfl).1 with complements := ?_, bound := hs.bound, parsed := hs.parsed }
  intro n c h
  simp [Pool.forgetComplements] at h

/-- With nothing remembered, complementing twice walks the filter twice and comes back to the
instance. -/
theorem Sound.complement_walks_back (hs : Sound ctx pool) {i : Instance} (hi : pool.Holds i) :
    ∃ c pool₁ pool₂, complement i pool.forgetComplements = (c, pool₁) ∧
      complement c pool₁.forgetComplements = (i, pool₂) := by
  have hi₁ : pool.forgetComplements.Holds i := hi
  obtain ⟨hs₁, hg₁, hc, hcf⟩ := yields_complement hi₁ hs.forgetComplements
  generalize complement i pool.forgetComplements = r₁ at hs₁ hg₁ hc hcf ⊢
  obtain ⟨c, pool₁⟩ := r₁
  have hc₁ : pool₁.forgetComplements.Holds c := hc
  obtain ⟨hs₂, hg₂, hj, hjf⟩ := yields_complement hc₁ hs₁.forgetComplements
  refine ⟨c, pool₁, (complement c pool₁.forgetComplements).2, rfl, Prod.ext ?_ rfl⟩
  -- the last instance and the first are one filter in one table
  have hi₂ : (complement c pool₁.forgetComplements).2.Holds i := hg₂ i (hg₁ i hi)
  have hcf : c.filter = i.filter.complement := hcf
  rw [hcf, Filter.complement_complement] at hjf
  exact hs₂.eq_of_filter_eq hj hi₂ hjf

/-! ## Complements of what is held -/

/-- The complement is handed out again if it is held already. -/
theorem Reached.complement_held (h : Reached ctx pool held) {i c : Instance} (hi : i ∈ held)
    (hc : c ∈ held) (hfilter : c.filter = i.filter.complement) :
    ∃ pool', (serve ctx (.complement i)).run pool = (.ok [c], pool') :=
  h.request_held (requests_complement ctx) hi hc hfilter

/-- The complement of an instance, computed anew, leads back to the instance. In a session the
complement is another instance over the same entity and as deep, whose complement is the instance
itself whatever was asked in between, and it is the complement of nothing else. -/
theorem Reached.complement_involutive (h : Reached ctx pool held) {i : Instance} (hi : i ∈ held) :
    (∃ c pool₁ pool₂, complement i pool.forgetComplements = (c, pool₁) ∧
        complement c pool₁.forgetComplements = (i, pool₂)) ∧
      ∃ c pool₁, (serve ctx (.complement i)).run pool = (.ok [c], pool₁) ∧ c.id ≠ i.id ∧
        c.depth = i.depth ∧ c.node.entity = i.node.entity ∧
        ∀ {pool' : Pool} {held' : List Instance}, Leads ctx pool₁ (c :: held) pool' held' →
          (∃ pool'', (serve ctx (.complement c)).run pool' = (.ok [i], pool'')) ∧
          ∀ j ∈ held', handedOut ((serve ctx (.complement j)).run pool').1 = [c] → j = i := by
  obtain ⟨hs, hheld⟩ := h.sound
  refine ⟨hs.complement_walks_back (hheld i hi), ?_⟩
  obtain ⟨c, pool₁, hrun, hc, hreached⟩ := h.serve_complement hi
  have hheld₁ := hreached.sound.2
  refine ⟨c, pool₁, hrun, ?_, ?_, ?_, ?_⟩
  · intro hid
    have hsame := (hreached.sound.1.id_eq_iff (hheld₁ c (by simp)) (hheld₁ i (by simp [hi]))).1 hid
    exact i.filter.complement_ne (hc.symm.trans hsame)
  · rw [hreached.sound.1.depth_eq (hheld₁ c (by simp)), hs.depth_eq (hheld i hi), hc,
      Filter.depth_complement]
  · rw [entity_node, entity_node, hc, Filter.entity_complement]
  · intro pool' held' hleads
    have hreached' := hleads.reached hreached
    have hi' : i ∈ held' := hleads.mem i (by simp [hi])
    have hc' : c ∈ held' := hleads.mem c (by simp)
    refine ⟨hreached'.complement_held hc' hi' ?_, ?_⟩
    · rw [hc, Filter.complement_complement]
    · intro j hj hout
      obtain ⟨c', pool'', hrun', hjc, -⟩ := hreached'.serve_complement hj
      rw [hrun'] at hout
      obtain rfl : c' = c := List.singleton_inj.1 hout
      -- the two complements are one filter, and complementing can be undone
      have hfilter : j.filter = i.filter := by
        rw [← j.filter.complement_complement, ← hjc, hc, Filter.complement_complement]
      exact hreached'.eq_of_filter_eq hj hi' hfilter

theorem Sample.complement_twice_given :
    ∃ i c pool₁ pool₂, Sample.given = [i] ∧ i.filter = Sample.filter ∧
      (serve Sample.context (.complement i)).run Sample.after = (.ok [c], pool₁) ∧ c.id ≠ i.id ∧
      (serve Sample.context (.complement c)).run pool₁ = (.ok [i], pool₂) := by
  obtain ⟨i, hgiven, hi, hfilter⟩ := Sample.exists_given
  obtain ⟨-, c, pool₁, hrun, hid, -, -, hback⟩ :=
    Reached.complement_involutive Sample.reached hi
  obtain ⟨⟨pool₂, hrun'⟩, -⟩ := hback .refl
  exact ⟨i, c, pool₁, pool₂, hgiven, hfilter, hrun, hid, hrun'⟩

end RowFilter.Pool
