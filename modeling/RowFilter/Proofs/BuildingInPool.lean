import RowFilter.Filter.Outline
import RowFilter.Proofs.Following

/-!
# Building in a pool

Everything that builds filters does in a pool what it does without one: the steps of the
builder, the readers of texts, the operations on parts, and the rebuilding of outlines. The
steps are where the table matters. The rest is written against any builder, and follows step by
step.
-/

namespace RowFilter.Pool

open RowFilter.Grammar

variable {ctx : Context} {pool : Pool}

/-! ## Nodes -/

/-- A node whose parts are in the table is given out as an instance of what it stands for. -/
theorem yields_give {n : Node Instance} (hn : ∀ p ∈ n.parts, pool.Holds p) :
    Yields ctx (fun pool' i => Stands pool' i (n.map Instance.filter).filter) pool (give n) := by
  intro hs
  obtain ⟨hc, hg, hi, hnode, hcomplements, hbound, hparsed⟩ := give_spec hs.toCanonical hn
  refine ⟨hs.of_grows hc hg hcomplements hbound hparsed, hg, hi, ?_⟩
  rw [Instance.filter_eq, hnode]

theorem yields_giveExistence {e : String} {c : Chain} {negated : Bool} {sub : Instance}
    {f : Filter} (h : Stands pool sub f) :
    Yields ctx (fun pool' i => Stands pool' i (.existence e c negated f)) pool
      (give (.existence e c negated sub)) := by
  obtain ⟨hsub, rfl⟩ := h
  exact yields_give (by simpa [Node.parts] using hsub)

theorem yields_giveJunction {e : String} {kind : Junction} {left right : Instance}
    {l r : Filter} (hl : Stands pool left l) (hr : Stands pool right r) :
    Yields ctx (fun pool' i => Stands pool' i (.junction e kind l r)) pool
      (give (.junction e kind left right)) := by
  obtain ⟨hleft, rfl⟩ := hl
  obtain ⟨hright, rfl⟩ := hr
  exact yields_give (by simpa [Node.parts] using ⟨hleft, hright⟩)

/-- A node is made of instances as it is made of what they stand for. -/
theorem follows_make {n : Node Instance} (hn : ∀ p ∈ n.parts, pool.Holds p) :
    Follows ctx Stands pool ((builder ctx).make n) (ctx.builder.make (n.map Instance.filter)) :=
  Follows.lift (yields_give hn)

/-! ## Complements -/

/-- The table is all that being canonical is about. -/
theorem Canonical.congr {pool' : Pool} (hc : Canonical pool)
    (h : pool'.instances = pool.instances) : Canonical pool' ∧ Grows pool pool' := by
  have hholds : ∀ i, pool'.Holds i ↔ pool.Holds i := fun i => by rw [Holds, Holds, h]
  refine ⟨⟨fun hk => hc.keyed (h ▸ hk), fun hi => ?_, fun hi hj he => ?_, fun hi p hp => ?_,
    fun hi => ?_⟩, fun i hi => (hholds i).2 hi⟩
  · rw [h]
    exact hc.numbered ((hholds _).1 hi)
  · exact hc.distinct ((hholds _).1 hi) ((hholds _).1 hj) he
  · exact (hholds p).2 (hc.closed ((hholds _).1 hi) p hp)
  · exact hc.measured ((hholds _).1 hi)

/-- The pool that remembers, in both directions, that two of its instances are complements. -/
theorem Sound.remember_complement (hs : Sound ctx pool) {i c : Instance} (hi : pool.Holds i)
    (hcin : pool.Holds c) (hf : c.filter = i.filter.complement) :
    Sound ctx { pool with complements := (pool.complements.insert c.id i).insert i.id c } := by
  have hback : i.filter = c.filter.complement := by rw [hf, Filter.complement_complement]
  have hne : c.id ≠ i.id := by
    intro h
    have := (hs.id_eq_iff hcin hi).1 h
    exact i.filter.complement_ne (hf.symm.trans this)
  have hget : ∀ n, ((pool.complements.insert c.id i).insert i.id c)[n]? =
      if i.id = n then some c else if c.id = n then some i else pool.complements[n]? := by
    intro n
    simp only [Std.HashMap.getElem?_insert, beq_iff_eq]
  refine { (hs.congr rfl).1 with complements := ?_, bound := hs.bound, parsed := hs.parsed }
  intro n d h
  simp only [hget] at h ⊢
  -- the entry is the one for the instance, the one for the complement, or an older one
  split at h
  · next hn =>
    obtain rfl := Option.some.inj h
    exact ⟨i, hn, hi, hcin, hf, by simp [hne.symm]⟩
  · split at h
    · next hn =>
      obtain rfl := Option.some.inj h
      exact ⟨c, hn, hcin, hi, hback, by simp⟩
    · next hni hnc =>
      obtain ⟨j, rfl, hj, hd, hjf, hjback⟩ := hs.complements h
      -- an older pair shares no instance with the new one, or it would be the same pair
      have hdi : i.id ≠ d.id := by
        intro he
        have hid : i = d := hs.distinct hi hd he
        refine hnc (hs.id_eq_iff hcin hj |>.2 ?_)
        rw [hf, hid, hjf, Filter.complement_complement]
      have hdc : c.id ≠ d.id := by
        intro he
        have hcd : c = d := hs.distinct hcin hd he
        refine hni (hs.id_eq_iff hi hj |>.2 ?_)
        rw [hback, hcd, hjf, Filter.complement_complement]
      exact ⟨j, rfl, hj, hd, hjf, by rw [if_neg hdi, if_neg hdc, hjback]⟩

/-- Looking a complement up gives what computing it gives. -/
theorem yields_recallComplement {i : Instance} (hi : pool.Holds i) {compute : Pooled Instance}
    (hcompute : Yields ctx (fun pool' c => Stands pool' c i.filter.complement) pool compute) :
    Yields ctx (fun pool' c => Stands pool' c i.filter.complement) pool
      (recallComplement i compute) := by
  refine Yields.of_sound fun hs => Yields.get_bind ?_
  split
  · next known hk =>
    -- the entry is about an instance with this number, and there is only one
    obtain ⟨j, hid, hj, hknown, hf, -⟩ := hs.complements hk
    obtain rfl : j = i := hs.distinct hj hi hid
    exact Yields.pure ⟨hknown, hf⟩
  · -- nothing is remembered: it is computed, and the pair is entered in both directions
    refine Yields.bind hcompute fun pool' c hg hc => ?_
    have hi' := hg i hi
    refine Yields.modify_bind (fun hs' => ?_) ?_
    · exact ⟨hs'.remember_complement hi' hc.1 hc.2, fun _ h => h⟩
    · exact Yields.pure hc

/-- The complement of an instance is the instance of the complement, whatever is remembered. -/
theorem yields_complement {i : Instance} (hi : pool.Holds i) :
    Yields ctx (fun pool' c => Stands pool' c i.filter.complement) pool (complement i) := by
  induction i generalizing pool with
  | opened id depth e => exact yields_recallComplement hi (yields_give (by simp [Node.parts]))
  | closed id depth e => exact yields_recallComplement hi (yields_give (by simp [Node.parts]))
  | compare id depth l => exact yields_recallComplement hi (yields_give (by simp [Node.parts]))
  | existence id depth e c negated sub ih =>
    -- only the sign of the test changes, so the filter beneath is not complemented
    refine Yields.of_sound fun hs => yields_recallComplement hi ?_
    exact yields_giveExistence (hs.holds_sub hi).stands
  | junction id depth e kind left right ihl ihr =>
    refine Yields.of_sound fun hs => yields_recallComplement hi ?_
    obtain ⟨hl, hr⟩ := hs.holds_operands hi
    refine Yields.bind (ihl hl) fun pool₁ left' hg₁ hl' => ?_
    refine Yields.bind (ihr (hg₁ right hr)) fun pool₂ right' hg₂ hr' => ?_
    exact yields_giveJunction (hl'.grows hg₂) hr'

theorem follows_complement {i : Instance} (hi : pool.Holds i) :
    Follows ctx Stands pool ((builder ctx).complement i)
      (ctx.builder.complement i.filter) :=
  Follows.lift (yields_complement hi)

/-! ## The steps of the builder -/

theorem isOpen_node (i : Instance) : i.node.isOpen = i.filter.isOpen := by
  obtain ⟨_, _, n⟩ := i
  cases n <;> simp [Node.isOpen, Instance.filter, Filter.isOpen]

theorem isClosed_node (i : Instance) : i.node.isClosed = i.filter.isClosed := by
  obtain ⟨_, _, n⟩ := i
  cases n <;> simp [Node.isClosed, Instance.filter, Filter.isClosed]

theorem entity_node (i : Instance) : i.node.entity = i.filter.entity := by
  obtain ⟨_, _, n⟩ := i
  cases n <;> simp [Node.entity, Instance.filter, Filter.entity]

/-- Whether a filter decides a junction alone can be seen from its node. -/
theorem absorbs_filter (kind : Junction) (i : Instance) :
    ctx.builder.absorbs kind i.filter = (builder ctx).absorbs kind i := by
  cases kind
  · exact (isClosed_node i).symm
  · exact (isOpen_node i).symm

theorem ignores_filter (kind : Junction) (i : Instance) :
    ctx.builder.ignores kind i.filter = (builder ctx).ignores kind i := by
  cases kind
  · exact (isOpen_node i).symm
  · exact (isClosed_node i).symm

/-- The limit is checked on the stored depths as it would be on the filters. -/
theorem follows_withinDepth {n : Node Instance} (hn : ∀ p ∈ n.parts, pool.Holds p) :
    Follows ctx Stands pool ((builder ctx).withinDepth n)
      (ctx.builder.withinDepth (n.map Instance.filter)) := by
  refine Follows.of_sound fun hs => ?_
  have hdepth : (n.map Instance.filter).depth Filter.depth = n.depth Instance.depth := by
    rw [Node.depth_map]
    exact Node.depth_congr fun p hp => (hs.depth_eq (hn p hp)).symm
  show Follows ctx Stands pool
    (if ctx.config.maxDepth < n.depth Instance.depth then throw (.tooDeep ctx.config.maxDepth)
      else (builder ctx).make n)
    (if ctx.config.maxDepth < (n.map Instance.filter).depth Filter.depth then
      throw (.tooDeep ctx.config.maxDepth) else ctx.builder.make (n.map Instance.filter))
  -- the kept depths are the true ones, so both sides are cut off at the same node
  rw [hdepth]
  split
  · exact Follows.throw _
  · exact follows_make hn

/-- Joining two instances comes to what joining their filters does. -/
theorem follows_join {kind : Junction} {left right : Instance} (hl : pool.Holds left)
    (hr : pool.Holds right) :
    Follows ctx Stands pool ((builder ctx).join kind left right)
      (ctx.builder.join kind left.filter right.filter) := by
  -- both sides ask the same questions of the tops of the operands
  rw [Builder.join, Builder.join, absorbs_filter, absorbs_filter, ignores_filter, ignores_filter]
  split
  · exact Follows.pure hl.stands
  · split
    · exact Follows.pure hr.stands
    · have hentity : ctx.builder.entityOf left.filter = (builder ctx).entityOf left :=
        (entity_node left).symm
      rw [hentity]
      refine follows_withinDepth (n := .junction _ kind left right) ?_
      simpa [Node.parts] using ⟨hl, hr⟩

/-- Instances are joined onto a first one, each as its filter is; by induction on those that are
left. -/
theorem follows_joinFrom {kind : Junction} {left : Instance} {rest : List Instance}
    (hl : pool.Holds left) (hr : ∀ i ∈ rest, pool.Holds i) :
    Follows ctx Stands pool (rest.foldlM ((builder ctx).join kind) left)
      ((rest.map Instance.filter).foldlM (ctx.builder.join kind) left.filter) := by
  induction rest generalizing pool left with
  | nil => exact Follows.pure hl.stands
  | cons next rest ih =>
    rw [List.map_cons, List.foldlM_cons, List.foldlM_cons]
    have hnext : pool.Holds next := hr next (by simp)
    refine Follows.bind_stands (follows_join hl hnext) fun pool' i hg hi => ?_
    exact ih hi fun j hj => hg j (hr j (by simp [hj]))

/-- A list of instances is joined as the list of their filters is. -/
theorem follows_joinAll {e : String} {kind : Junction} {is : List Instance}
    (h : ∀ i ∈ is, pool.Holds i) :
    Follows ctx Stands pool ((builder ctx).joinAll e kind is)
      (ctx.builder.joinAll e kind (is.map Instance.filter)) := by
  cases is with
  | nil => cases kind <;> exact follows_make (by simp [Node.parts])
  | cons first rest =>
    exact follows_joinFrom (h first (by simp)) fun i hi => h i (by simp [hi])

theorem follows_combine {kind : Junction} {left right : Instance} (hl : pool.Holds left)
    (hr : pool.Holds right) :
    Follows ctx Stands pool ((builder ctx).combine kind left right)
      (ctx.builder.combine kind left.filter right.filter) := by
  have hentity : ∀ i : Instance, ctx.builder.entityOf i.filter = (builder ctx).entityOf i :=
    fun i => (entity_node i).symm
  rw [Builder.combine, Builder.combine, hentity, hentity]
  split
  · exact follows_join hl hr
  · exact Follows.throw _

/-- A test over an instance comes to the test over its filter. -/
theorem follows_existence {e : String} {c : Chain} {negated : Bool} {sub : Instance}
    (h : pool.Holds sub) :
    Follows ctx Stands pool ((builder ctx).existence e c negated sub)
      (ctx.builder.existence e c negated sub.filter) := by
  have hclosed : ctx.builder.isClosed sub.filter = (builder ctx).isClosed sub :=
    (isClosed_node sub).symm
  rw [Builder.existence, Builder.existence, hclosed]
  split
  · exact Follows.throw _
  · exact follows_withinDepth (n := .existence e c negated sub) (by simpa [Node.parts] using h)

/-! ## Reading texts -/

/-- Two readings of one input that leave the same rest and have related values. -/
def ReadAlike {input : List Token} (pool : Pool) (r : Reading Instance input)
    (r' : Reading Filter input) : Prop :=
  Stands pool r.value r'.value ∧ r.rest = r'.rest

/-- Readings alike go on as readings of an instance and of its filter, with one rest. -/
theorem Follows.bind_reading {γ δ : Type} {R : Pool → γ → δ → Prop} {input : List Token}
    {x : Attempt (Reading Instance input)} {y : Except FilterError (Reading Filter input)}
    {k : Reading Instance input → Attempt γ} {k' : Reading Filter input → Except FilterError δ}
    (hx : Follows ctx ReadAlike pool x y)
    (hk : ∀ pool' i rest hlt, Grows pool pool' → pool'.Holds i →
      Follows ctx R pool' (k ⟨i, rest, hlt⟩) (k' ⟨i.filter, rest, hlt⟩)) :
    Follows ctx R pool (x >>= k) (y >>= k') := by
  refine Follows.bind hx fun pool' r r' hg hr => ?_
  obtain ⟨i, rest, hlt⟩ := r
  obtain ⟨f, rest', hlt'⟩ := r'
  obtain ⟨⟨hi, rfl⟩, rfl⟩ := hr
  exact hk pool' i rest hlt hg hi

/-- From every pool, the one reader reads what the other reads. -/
def ReadersFollow (ctx : Context) (rd : TokenReader Attempt Instance)
    (rd' : TokenReader (Except FilterError) Filter) : Prop :=
  ∀ pool tokens, Follows ctx ReadAlike pool (rd tokens) (rd' tokens)

/-- The same, for readers one level further in, if there is a further level. -/
def DeeperFollow (ctx : Context) :
    Deeper Attempt Instance → Deeper (Except FilterError) Filter → Prop
  | some inner, some inner' => ∀ e, ReadersFollow ctx (inner e) (inner' e)
  | none, none => True
  | _, _ => False

variable {text : String}

/-- A run is read onto a first operand as without a pool, by recursion on the words left. -/
theorem follows_junctionFrom {kind : Junction} {rd : TokenReader Attempt Instance}
    {rd' : TokenReader (Except FilterError) Filter} (hrd : ReadersFollow ctx rd rd')
    {pool : Pool} {input : List Token} {left : Instance} (hl : pool.Holds left)
    (tokens : List Token) (h : tokens.length < input.length) :
    Follows ctx ReadAlike pool (junctionFrom ⟨builder ctx, text⟩ kind rd left tokens h)
      (junctionFrom ⟨ctx.builder, text⟩ kind rd' left.filter tokens h) := by
  unfold junctionFrom
  cases tokens with
  | nil => exact Follows.pure ⟨hl.stands, rfl⟩
  | cons t rest =>
    simp only
    split
    · refine Follows.bind_reading (hrd pool rest) fun pool₁ i rest₁ hshort hg₁ hi => ?_
      refine Follows.bind_stands (follows_join (hg₁ left hl) hi) fun pool₂ j hg₂ hj => ?_
      -- the run goes on from what was joined so far, over fewer tokens
      have hlt : rest₁.length < (t :: rest).length := Nat.lt_trans hshort (Nat.lt_succ_self _)
      exact follows_junctionFrom hrd hj rest₁ (Nat.lt_trans hlt h)
    · exact Follows.pure ⟨hl.stands, rfl⟩
termination_by tokens.length

/-- A run is read as without a pool if its operands are. -/
theorem readersFollow_junction {kind : Junction} {rd : TokenReader Attempt Instance}
    {rd' : TokenReader (Except FilterError) Filter} (hrd : ReadersFollow ctx rd rd') :
    ReadersFollow ctx (junction ⟨builder ctx, text⟩ kind rd)
      (junction ⟨ctx.builder, text⟩ kind rd') := by
  intro pool tokens
  refine Follows.bind_reading (hrd pool tokens) fun pool₁ i rest hshort hg₁ hi => ?_
  exact follows_junctionFrom hrd hi rest hshort

/-- A filter is read as without a pool if the operands of its runs are. -/
theorem readersFollow_filterOf {rd : TokenReader Attempt Instance}
    {rd' : TokenReader (Except FilterError) Filter} (hrd : ReadersFollow ctx rd rd') :
    ReadersFollow ctx (filterOf ⟨builder ctx, text⟩ rd) (filterOf ⟨ctx.builder, text⟩ rd') :=
  readersFollow_junction (readersFollow_junction hrd)

/-- Entering a level gives readers that follow, or the same error. -/
theorem follows_enter {deeper : Deeper Attempt Instance}
    {deeper' : Deeper (Except FilterError) Filter} (h : DeeperFollow ctx deeper deeper') :
    Follows ctx (fun _ inner inner' => ∀ e, ReadersFollow ctx (inner e) (inner' e)) pool
      (enter ⟨builder ctx, text⟩ deeper) (enter ⟨ctx.builder, text⟩ deeper') := by
  cases deeper with
  | none =>
    cases deeper' with
    | none => exact Follows.throw _
    | some inner' => exact h.elim
  | some inner =>
    cases deeper' with
    | none => exact h.elim
    | some inner' => exact Follows.pure h

section Operands

variable {deeper : Deeper Attempt Instance} {deeper' : Deeper (Except FilterError) Filter}

/-- What stands in parentheses is read as without a pool if everything one level deeper is. -/
theorem readersFollow_enclosed (h : DeeperFollow ctx deeper deeper') (e : Entity) (flaw : Flaw)
    (paren : Span) :
    ReadersFollow ctx (enclosed ⟨builder ctx, text⟩ deeper e flaw paren)
      (enclosed ⟨ctx.builder, text⟩ deeper' e flaw paren) := by
  intro pool tokens
  refine Follows.bind (follows_enter h) fun pool₁ inner inner' hg₁ hinner => ?_
  refine Follows.bind_reading (readersFollow_filterOf (hinner e) pool₁ tokens)
    fun pool₂ i rest hshort hg₂ hi => ?_
  exact Follows.ofExcept_bind fun close _ => Follows.pure ⟨hi.stands, rfl⟩

theorem readersFollow_body (h : DeeperFollow ctx deeper deeper') (target : Entity)
    (paren : Span) :
    ReadersFollow ctx (body ⟨builder ctx, text⟩ deeper target paren)
      (body ⟨ctx.builder, text⟩ deeper' target paren) := by
  intro pool tokens
  cases tokens with
  | nil => exact Follows.throw _
  | cons t rest =>
    simp only [body]
    split
    · refine Follows.bind (follows_make (by simp [Node.parts])) fun pool₁ i f hg₁ hi => ?_
      exact Follows.pure ⟨hi, rfl⟩
    · exact readersFollow_enclosed h target _ paren pool (t :: rest)

/-- A test is read as without a pool, its chain being resolved before its body is read. -/
theorem readersFollow_test (h : DeeperFollow ctx deeper deeper') (e : Entity)
    (names : List Segment) :
    ReadersFollow ctx (test ⟨builder ctx, text⟩ deeper e names)
      (test ⟨ctx.builder, text⟩ deeper' e names) := by
  intro pool tokens
  -- whatever else follows, the chain is resolved first and its error comes first
  have hother : ∀ error : FilterError, Follows ctx (@ReadAlike tokens) pool
      (do
        let _ ← MonadExcept.ofExcept (ctx.schema.resolve e names .comparison text)
        throw error)
      (do
        let _ ← MonadExcept.ofExcept (ctx.schema.resolve e names .comparison text)
        throw error) :=
    fun error => Follows.ofExcept_bind fun _ _ => Follows.throw _
  cases tokens with
  | nil => exact hother _
  | cons t rest =>
    obtain ⟨lexeme, span⟩ := t
    cases lexeme with
    | op op =>
      refine Follows.ofExcept_bind fun param _ => ?_
      refine Follows.ofExcept_bind fun resolved _ => ?_
      refine Follows.bind (follows_make (by simp [Node.parts])) fun pool₁ i f hg₁ hi => ?_
      exact Follows.pure ⟨hi, rfl⟩
    | leftParen =>
      refine Follows.ofExcept_bind fun resolved _ => ?_
      cases resolved.target with
      | none => exact Follows.throw _
      | some target =>
        refine Follows.bind_reading (readersFollow_body h target span pool rest)
          fun pool₁ i rest₁ hshort hg₁ hi => ?_
        refine Follows.bind (follows_existence hi) fun pool₂ j g hg₂ hj => ?_
        exact Follows.pure ⟨hj, rfl⟩
    | _ => exact hother _

theorem readersFollow_tested (h : DeeperFollow ctx deeper deeper') (e : Entity) :
    ReadersFollow ctx (tested ⟨builder ctx, text⟩ deeper e)
      (tested ⟨ctx.builder, text⟩ deeper' e) := by
  intro pool tokens
  refine Follows.ofExcept_bind fun names _ => ?_
  refine Follows.bind (readersFollow_test h e names.value pool names.rest)
    fun pool₁ r r' hg₁ hr => ?_
  exact Follows.pure hr

/-- A sign makes the complement of what is read after it. -/
theorem readersFollow_negation (h : DeeperFollow ctx deeper deeper') (e : Entity) :
    ReadersFollow ctx (negation ⟨builder ctx, text⟩ deeper e)
      (negation ⟨ctx.builder, text⟩ deeper' e) := by
  intro pool tokens
  refine Follows.bind (follows_enter h) fun pool₁ inner inner' hg₁ hinner => ?_
  refine Follows.bind_reading (hinner e pool₁ tokens) fun pool₂ i rest hshort hg₂ hi => ?_
  refine Follows.bind (follows_complement hi) fun pool₃ c g hg₃ hc => ?_
  exact Follows.pure ⟨hc, rfl⟩

theorem readersFollow_operandOver (h : DeeperFollow ctx deeper deeper') (e : Entity) :
    ReadersFollow ctx (operandOver ⟨builder ctx, text⟩ deeper e)
      (operandOver ⟨ctx.builder, text⟩ deeper' e) := by
  intro pool tokens
  cases tokens with
  | nil => exact Follows.throw _
  | cons t rest =>
    obtain ⟨lexeme, span⟩ := t
    cases lexeme with
    | not =>
      refine Follows.bind (readersFollow_negation h e pool rest) fun pool₁ r r' hg₁ hr => ?_
      exact Follows.pure hr
    | leftParen =>
      simp only [operandOver]
      split
      · exact readersFollow_tested h e pool _
      · refine Follows.bind (readersFollow_enclosed h e _ span pool rest)
          fun pool₁ r r' hg₁ hr => ?_
        exact Follows.pure hr
    | name n => exact readersFollow_tested h e pool _
    | _ => exact Follows.throw _

end Operands

/-- Operands are read as without a pool, by induction on how deep they may nest. -/
theorem readersFollow_operand (room : Nat) (e : Entity) :
    ReadersFollow ctx (operand ⟨builder ctx, text⟩ room e)
      (operand ⟨ctx.builder, text⟩ room e) := by
  induction room generalizing e with
  | zero =>
    have hdeeper : @DeeperFollow ctx none none := trivial
    exact readersFollow_operandOver hdeeper e
  | succ room ih =>
    have hdeeper : DeeperFollow ctx (some (operand ⟨builder ctx, text⟩ room))
        (some (operand ⟨ctx.builder, text⟩ room)) := ih
    exact readersFollow_operandOver hdeeper e

/-- A whole text is read as without a pool. -/
theorem follows_wholeFilter (e : Entity) (tokens : List Token) :
    Follows ctx Stands pool (wholeFilter ⟨builder ctx, text⟩ e tokens)
      (wholeFilter ⟨ctx.builder, text⟩ e tokens) := by
  refine Follows.bind_reading (readersFollow_filterOf (readersFollow_operand _ e) pool tokens)
    fun pool₁ i rest hshort hg₁ hi => ?_
  exact Follows.ofExcept_bind fun _ _ => Follows.pure hi.stands

/-! ## Operations on parts -/

theorem follows_comparison {entity path : String} {op : RelOp} :
    Follows ctx Stands pool ((builder ctx).comparison entity path op)
      (ctx.builder.comparison entity path op) := by
  refine Follows.ofExcept_bind fun e _ => Follows.ofExcept_bind fun resolved _ => ?_
  exact follows_make (by simp [Node.parts])

theorem follows_constant {entity path : String} {op : RelOp} {v : Value} :
    Follows ctx Stands pool ((builder ctx).constant entity path op v)
      (ctx.builder.constant entity path op v) := by
  refine Follows.ofExcept_bind fun e _ => Follows.ofExcept_bind fun resolved _ => ?_
  refine Follows.ofExcept_bind fun w _ => ?_
  exact follows_make (by simp [Node.parts])

theorem follows_opened {entity : String} :
    Follows ctx Stands pool ((builder ctx).opened entity) (ctx.builder.opened entity) :=
  Follows.ofExcept_bind fun _ _ => follows_make (by simp [Node.parts])

theorem follows_closed {entity : String} :
    Follows ctx Stands pool ((builder ctx).closed entity) (ctx.builder.closed entity) :=
  Follows.ofExcept_bind fun _ _ => follows_make (by simp [Node.parts])

/-- Whether a filter is over the tested rows is seen from its instance. -/
theorem follows_matchTarget {target : Option Entity} {sub : Instance} :
    Follows ctx (fun _ _ _ => True) pool ((builder ctx).matchTarget target sub)
      (ctx.builder.matchTarget target sub.filter) := by
  have hentity : ctx.builder.entityOf sub.filter = (builder ctx).entityOf sub :=
    (entity_node sub).symm
  cases target with
  | none => exact Follows.pure trivial
  | some t =>
    rw [Builder.matchTarget, Builder.matchTarget, hentity]
    split
    · exact Follows.pure trivial
    · exact Follows.throw _

theorem follows_rowsAt {entity path : String} {sub : Instance} {negated : Bool}
    (h : pool.Holds sub) :
    Follows ctx Stands pool ((builder ctx).rowsAt entity path sub negated)
      (ctx.builder.rowsAt entity path sub.filter negated) := by
  refine Follows.ofExcept_bind fun e _ => Follows.ofExcept_bind fun resolved _ => ?_
  refine Follows.bind follows_matchTarget fun pool₁ _ _ hg₁ _ => ?_
  exact follows_existence (hg₁ sub h)

/-! ## Rebuilding outlines -/

mutual

/-- An outline is rebuilt in a pool as without one, by recursion on the outline. -/
theorem follows_rebuild {pool : Pool} (o : Outline) :
    Follows ctx Stands pool ((builder ctx).rebuild o) (ctx.builder.rebuild o) := by
  cases o with
  | opened entity => exact follows_opened
  | closed entity => exact follows_closed
  | compare entity chain op operand =>
    refine Follows.ofExcept_bind fun e _ => Follows.ofExcept_bind fun resolved _ => ?_
    refine Follows.ofExcept_bind fun operand' _ => ?_
    exact follows_make (by simp [Node.parts])
  | existence entity chain negated sub =>
    refine Follows.ofExcept_bind fun e _ => Follows.ofExcept_bind fun resolved _ => ?_
    refine Follows.bind_stands (follows_rebuild sub) fun pool₁ i hg₁ hi => ?_
    refine Follows.bind follows_matchTarget fun pool₂ _ _ hg₂ _ => ?_
    exact follows_existence (hg₂ i hi)
  | junction kind operands =>
    cases operands with
    | nil => exact Follows.throw _
    | cons first rest =>
      refine Follows.bind_stands (follows_rebuild first) fun pool₁ i hg₁ hi => ?_
      exact follows_rebuildOnto kind hi rest

/-- The operands of a junction are rebuilt one by one, each joined onto those in front of it. -/
theorem follows_rebuildOnto {pool : Pool} (kind : Junction) {left : Instance}
    (hl : pool.Holds left) (rest : List Outline) :
    Follows ctx Stands pool ((builder ctx).rebuildOnto kind left rest)
      (ctx.builder.rebuildOnto kind left.filter rest) := by
  cases rest with
  | nil => exact Follows.pure hl.stands
  | cons next rest =>
    refine Follows.bind_stands (follows_rebuild next) fun pool₁ i hg₁ hi => ?_
    refine Follows.bind_stands (follows_combine (hg₁ left hl) hi) fun pool₂ j hg₂ hj => ?_
    exact follows_rebuildOnto kind hj rest

end

end RowFilter.Pool
