import RowFilter.Pool.Rewrite
import RowFilter.Proofs.BuildingInPool

/-!
# Rewriting in a pool

Binding, normal forms and reordering give the instances of what they give without a pool. The
one thing to see is that a test kept because the number of its filter has not changed is the
test that would have been built.
-/

namespace RowFilter.Pool

variable {ctx : Context} {pool : Pool}

theorem standAll_singleton {i : Instance} {f : Filter} (h : Stands pool i f) :
    StandAll pool [i] [f] :=
  ⟨by simpa using h.1, by simpa using h.2⟩

theorem StandAll.grows {pool' : Pool} {is : List Instance} {fs : List Filter}
    (h : StandAll pool is fs) (hg : Grows pool pool') : StandAll pool' is fs :=
  ⟨fun i hi => hg i (h.1 i hi), h.2⟩

theorem StandAll.append {is js : List Instance} {fs gs : List Filter} (hi : StandAll pool is fs)
    (hj : StandAll pool js gs) : StandAll pool (is ++ js) (fs ++ gs) := by
  refine ⟨fun k hk => ?_, by rw [List.map_append, hi.2, hj.2]⟩
  rcases List.mem_append.1 hk with hk | hk
  · exact hi.1 k hk
  · exact hj.1 k hk

/-! ## Numbering parameters -/

/-- The instance is the numbered filter, and the counters are the ones it leaves. -/
def Numbered (pool : Pool) (r : Instance × Counters) (r' : Filter × Counters) : Prop :=
  Stands pool r.1 r'.1 ∧ r.2 = r'.2

/-- Numbering an instance gives the numbered filter and leaves the same counters; by induction on
the instance. -/
theorem yields_number {counters : Counters} {i : Instance} (hi : pool.Holds i) :
    Yields ctx (fun pool' r => Numbered pool' r (i.filter.number counters)) pool
      (number counters i) := by
  induction i generalizing pool counters with
  | opened id depth e => exact Yields.pure ⟨hi.stands, rfl⟩
  | closed id depth e => exact Yields.pure ⟨hi.stands, rfl⟩
  | compare id depth l =>
    obtain ⟨entity, shape, operand⟩ := l
    cases operand with
    | unbound =>
      refine Yields.bind (yields_give (by simp [Node.parts])) fun pool₁ j hg₁ hj => ?_
      exact Yields.pure ⟨hj, rfl⟩
    | bound n => exact Yields.pure ⟨hi.stands, rfl⟩
    | constant v => exact Yields.pure ⟨hi.stands, rfl⟩
  | existence id depth e c negated sub ih =>
    refine Yields.of_sound fun hs => ?_
    have hsub : pool.Holds sub := hs.holds_sub hi
    refine Yields.bind (ih hsub) fun pool₁ r hg₁ hr => ?_
    obtain ⟨sub', counters'⟩ := r
    obtain ⟨hsub', rfl⟩ := hr
    refine Yields.of_sound fun hs₁ => ?_
    simp only
    split
    · next hid =>
      -- the number of the filter beneath is unchanged, hence the filter, hence the test
      have hsame : sub'.filter = sub.filter := (hs₁.id_eq_iff hsub'.1 (hg₁ sub hsub)).1 hid
      have hnumbered : sub.filter = (sub.filter.number counters).1 := hsame.symm.trans hsub'.2
      exact Yields.pure ⟨⟨hg₁ _ hi, congrArg (Filter.existence e c negated) hnumbered⟩, rfl⟩
    · refine Yields.bind (yields_giveExistence hsub') fun pool₂ j hg₂ hj => ?_
      exact Yields.pure ⟨hj, rfl⟩
  | junction id depth e kind left right ihl ihr =>
    refine Yields.of_sound fun hs => ?_
    obtain ⟨hl, hr⟩ := hs.holds_operands hi
    refine Yields.bind (ihl hl) fun pool₁ r₁ hg₁ h₁ => ?_
    obtain ⟨left', counters'⟩ := r₁
    obtain ⟨hl', rfl⟩ := h₁
    -- the right operand is numbered with the counters that the left one leaves
    refine Yields.bind (ihr (hg₁ right hr)) fun pool₂ r₂ hg₂ h₂ => ?_
    obtain ⟨right', counters''⟩ := r₂
    obtain ⟨hr', rfl⟩ := h₂
    refine Yields.bind (yields_giveJunction (hl'.grows hg₂) hr') fun pool₃ j hg₃ hj => ?_
    exact Yields.pure ⟨hj, rfl⟩

/-- The pool that remembers the bound form of one of its instances. -/
theorem Sound.remember_bound (hs : Sound ctx pool) {i b : Instance} (hi : pool.Holds i)
    (hb : pool.Holds b) (hf : b.filter = i.filter.bind) :
    Sound ctx { pool with bound := pool.bound.insert i.id b } := by
  refine { (hs.congr rfl).1 with
    complements := hs.complements, bound := ?_, parsed := hs.parsed }
  intro n d h
  rw [Std.HashMap.getElem?_insert] at h
  split at h
  · next hn =>
    obtain rfl := Option.some.inj h
    exact ⟨i, eq_of_beq hn, hi, hb, hf⟩
  · exact hs.bound h

/-- The bound form of an instance is the instance of the bound form, whatever is remembered. -/
theorem yields_bind {i : Instance} (hi : pool.Holds i) :
    Yields ctx (fun pool' b => Stands pool' b i.filter.bind) pool (bind i) := by
  unfold bind
  by_cases hbound : i.filter.isBound = true
  · have hself : i.filter.bind = i.filter := by rw [Filter.bind, if_pos hbound]
    rw [if_pos hbound, hself]
    exact Yields.pure hi.stands
  · rw [if_neg hbound]
    refine Yields.of_sound fun hs => Yields.get_bind ?_
    split
    · next known hk =>
      -- the entry is about an instance with this number, and there is only one
      obtain ⟨j, hid, hj, hknown, hf⟩ := hs.bound hk
      obtain rfl : j = i := hs.distinct hj hi hid
      exact Yields.pure ⟨hknown, hf⟩
    · refine Yields.bind (yields_number hi) fun pool₁ r hg₁ hr => ?_
      obtain ⟨b, counters⟩ := r
      obtain ⟨⟨hb, hf⟩, -⟩ := hr
      have hb' : Stands pool₁ b i.filter.bind := by
        refine ⟨hb, ?_⟩
        rw [Filter.bind, if_neg hbound]
        exact hf
      refine Yields.modify_bind (fun hs₁ => ?_) (Yields.pure hb')
      exact ⟨hs₁.remember_bound (hg₁ i hi) hb hb'.2, fun _ h => h⟩

/-! ## Normal forms -/

/-- The clauses are in the pool and are these clauses. -/
def ClausesStand (pool : Pool) (cs : List (List Instance)) (cs' : List (List Filter)) : Prop :=
  (∀ c ∈ cs, ∀ i ∈ c, pool.Holds i) ∧ cs.map (List.map Instance.filter) = cs'

/-- Clauses of both operands stand for the clauses of both. -/
theorem ClausesStand.append {ls rs : List (List Instance)} {ls' rs' : List (List Filter)}
    (hl : ClausesStand pool ls ls') (hr : ClausesStand pool rs rs') :
    ClausesStand pool (ls ++ rs) (ls' ++ rs') := by
  refine ⟨fun c hc => ?_, by rw [List.map_append, hl.2, hr.2]⟩
  rcases List.mem_append.1 hc with hc | hc
  · exact hl.1 c hc
  · exact hr.1 c hc

theorem ClausesStand.distribute {ls rs : List (List Instance)} {ls' rs' : List (List Filter)}
    (hl : ClausesStand pool ls ls') (hr : ClausesStand pool rs rs') :
    ClausesStand pool (distribute ls rs) (distribute ls' rs') := by
  refine ⟨fun c hc i hi => ?_, by rw [map_distribute, hl.2, hr.2]⟩
  obtain ⟨l, hlc, r, hrc, rfl⟩ := mem_distribute.1 hc
  rcases List.mem_append.1 hi with hi | hi
  · exact hl.1 l hlc i hi
  · exact hr.1 r hrc i hi

/-- The clauses of an instance are those of its filter, or are too many alike. -/
theorem clauses_agree (hs : Sound ctx pool) {outer : Junction} {limit : Nat} {i : Instance}
    (hi : pool.Holds i) :
    Agree (ClausesStand pool) (clauses outer limit i) (i.filter.clauses outer limit) := by
  induction i with
  | opened | closed | compare | existence =>
    exact ⟨by simpa using hi, rfl⟩
  | junction id depth e kind left right ihl ihr =>
    obtain ⟨hl, hr⟩ := hs.holds_operands hi
    refine (ihl hl).bind fun ls ls' hls => (ihr hr).bind fun rs rs' hrs => ?_
    have hlen : ls'.length = ls.length := by rw [← hls.2, List.length_map]
    have hren : rs'.length = rs.length := by rw [← hrs.2, List.length_map]
    have hcheck : ∀ count, Agree (fun _ _ : Unit => True) (Filter.checkCount limit count)
        (Filter.checkCount limit count) := by
      intro count
      unfold Filter.checkCount
      split
      · exact rfl
      · exact trivial
    -- both sides count the same clauses, so they pass the limit together
    rw [hlen, hren]
    split
    · exact (hcheck _).bind fun _ _ _ => hls.append hrs
    · exact (hcheck _).bind fun _ _ _ => hls.distribute hrs

/-- Clauses are joined one by one as those of filters are. -/
theorem follows_joinClauses {e : String} {kind : Junction} {cs : List (List Instance)}
    (h : ∀ c ∈ cs, ∀ i ∈ c, pool.Holds i) :
    Follows ctx StandAll pool (cs.mapM ((builder ctx).joinAll e kind))
      ((cs.map (List.map Instance.filter)).mapM (ctx.builder.joinAll e kind)) := by
  induction cs generalizing pool with
  | nil => exact Follows.pure ⟨by simp, rfl⟩
  | cons c cs ih =>
    rw [List.map_cons, List.mapM_cons, List.mapM_cons]
    have hc : ∀ i ∈ c, pool.Holds i := h c (by simp)
    refine Follows.bind (follows_joinAll hc) fun pool₁ i f hg₁ hi => ?_
    have hrest : ∀ c ∈ cs, ∀ i ∈ c, pool₁.Holds i :=
      fun c hc i hi => hg₁ i (h c (by simp [hc]) i hi)
    refine Follows.bind (ih hrest) fun pool₂ is fs hg₂ his => ?_
    exact Follows.pure ((standAll_singleton (hi.grows hg₂)).append his)

/-- Splitting an instance comes to splitting its filter. -/
theorem follows_split {outer : Junction} {i : Instance} (hi : pool.Holds i) :
    Follows ctx StandAll pool (split ctx outer i) (ctx.split outer i.filter) := by
  refine Follows.of_sound fun hs => ?_
  unfold split Context.split Context.joinAll
  rw [entity_node]
  refine Follows.bind (Follows.ofAgree (clauses_agree hs hi)) fun pool₁ cs cs' hg₁ hcs => ?_
  obtain ⟨hin, rfl⟩ := hcs
  exact follows_joinClauses hin

/-- The normal form of an instance is that of its filter. -/
theorem follows_normalForm {outer : Junction} {i : Instance} (hi : pool.Holds i) :
    Follows ctx Stands pool (normalForm ctx outer i) (ctx.normalForm outer i.filter) := by
  unfold normalForm Context.normalForm
  rw [entity_node]
  refine Follows.bind (follows_split hi) fun pool₁ is fs hg₁ his => ?_
  obtain ⟨hin, rfl⟩ := his
  exact follows_joinAll hin

/-! ## Cheap tests first -/

/-- Instances are sorted as their filters are, since the cost is seen from the filter. -/
theorem StandAll.cheapestFirst {is : List Instance} {fs : List Filter}
    (h : StandAll pool is fs) :
    StandAll pool (cheapestFirst (fun i => i.filter.cost) is) (cheapestFirst Filter.cost fs) := by
  refine ⟨fun i hi => h.1 i ((cheapestFirst_perm _ _).mem_iff.1 hi), ?_⟩
  rw [← h.2]
  exact map_cheapestFirst Instance.filter Filter.cost is

theorem follows_joinAll_of {e : String} {kind : Junction} {is : List Instance}
    {fs : List Filter} (h : StandAll pool is fs) :
    Follows ctx Stands pool ((builder ctx).joinAll e kind is) (ctx.joinAll e kind fs) := by
  obtain ⟨hin, rfl⟩ := h
  exact follows_joinAll hin

/-- Reordering an instance follows reordering its filter, by induction on the instance. -/
theorem follows_reordered {run : Option Junction} {i : Instance} (hi : pool.Holds i) :
    Follows ctx StandAll pool (reordered ctx run i) (ctx.reordered run i.filter) := by
  induction i generalizing pool run with
  | opened id depth e => exact Follows.pure (standAll_singleton hi.stands)
  | closed id depth e => exact Follows.pure (standAll_singleton hi.stands)
  | compare id depth l => exact Follows.pure (standAll_singleton hi.stands)
  | existence id depth e c negated sub ih =>
    refine Follows.of_sound fun hs => ?_
    have hsub : pool.Holds sub := hs.holds_sub hi
    simp only [reordered, Instance.filter, Context.reordered]
    rw [entity_node]
    refine Follows.bind (ih hsub) fun pool₁ is fs hg₁ his => ?_
    refine Follows.bind_stands (follows_joinAll_of his) fun pool₂ sub' hg₂ hsub' => ?_
    refine Follows.of_sound fun hs₂ => ?_
    have hsub₂ : pool₂.Holds sub := hg₂ sub (hg₁ sub hsub)
    -- the pool compares numbers where the other side compares filters
    by_cases hid : sub'.id = sub.id
    · have hsame := (hs₂.id_eq_iff hsub' hsub₂).1 hid
      rw [if_pos hid, if_pos hsame]
      exact Follows.pure (standAll_singleton ⟨hg₂ _ (hg₁ _ hi), rfl⟩)
    · have hother : sub'.filter ≠ sub.filter := fun h => hid ((hs₂.id_eq_iff hsub' hsub₂).2 h)
      rw [if_neg hid, if_neg hother]
      refine Follows.bind (follows_existence hsub') fun pool₃ j g hg₃ hj => ?_
      exact Follows.pure (standAll_singleton hj)
  | junction id depth e kind left right ihl ihr =>
    refine Follows.of_sound fun hs => ?_
    obtain ⟨hl, hr⟩ := hs.holds_operands hi
    simp only [reordered, Instance.filter, Context.reordered]
    refine Follows.bind (ihl hl) fun pool₁ ls ls' hg₁ hls => ?_
    refine Follows.bind (ihr (hg₁ right hr)) fun pool₂ rs rs' hg₂ hrs => ?_
    have hall := (hls.grows hg₂).append hrs
    -- inside a run of the same kind the operands are passed on, outside they are joined
    split
    · exact Follows.pure hall
    · refine Follows.bind (follows_joinAll_of hall.cheapestFirst) fun pool₃ j g hg₃ hj => ?_
      exact Follows.pure (standAll_singleton hj)

/-- The reordered instance is that of the reordered filter. -/
theorem follows_optimize {i : Instance} (hi : pool.Holds i) :
    Follows ctx Stands pool (optimize ctx i) (ctx.optimize i.filter) := by
  unfold optimize Context.optimize
  rw [entity_node]
  refine Follows.bind (follows_reordered hi) fun pool₁ is fs hg₁ his => ?_
  exact follows_joinAll_of his

end RowFilter.Pool
