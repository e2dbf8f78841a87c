import RowFilter.Proofs.Serving
import RowFilter.Proofs.Shaping

/-!
# Sessions

A session asks a pool for one thing after another, about instances it was handed before or their
parts; requests may fail. Whatever the session, everything handed out is in shape and stands in
the table once, an answer depends on the filters asked about and not on what was asked before,
and texts are read by the grammar.
-/

namespace RowFilter

/-- The context that differs in nothing but in whether parsed filters are remembered. -/
def Context.withCache (ctx : Context) (parseCache : Bool) : Context :=
  { ctx with config := { ctx.config with parseCache := parseCache } }

namespace Pool

open RowFilter.Grammar

variable {ctx : Context} {pool : Pool} {held : List Instance}

/-- What a result hands out: nothing, if it is an error. -/
def handedOut : Except FilterError (List Instance) → List Instance
  | .ok is => is
  | .error _ => []

/-- The pools that sessions lead to, with all instances held by then. -/
inductive Reached (ctx : Context) : Pool → List Instance → Prop where
  | start : Reached ctx empty []
  /-- A request about instances that are held. -/
  | served {pool : Pool} {held : List Instance} (q : Request)
      (hq : ∀ i ∈ q.arguments, i ∈ held) (h : Reached ctx pool held) :
      Reached ctx ((serve ctx q).run pool).2 (handedOut ((serve ctx q).run pool).1 ++ held)
  /-- A part of an instance that is held. -/
  | part {pool : Pool} {held : List Instance} {i p : Instance} (hi : i ∈ held)
      (hp : p ∈ i.node.parts) (h : Reached ctx pool held) : Reached ctx pool (p :: held)

/-- A request about instances of a sound pool leaves a sound pool with all its instances, and
hands out instances of the pool. -/
theorem serve_spec (hs : Sound ctx pool) {q : Request} (hq : ∀ i ∈ q.arguments, pool.Holds i) :
    Sound ctx ((serve ctx q).run pool).2 ∧ Grows pool ((serve ctx q).run pool).2 ∧
      (∀ i ∈ handedOut ((serve ctx q).run pool).1, ((serve ctx q).run pool).2.Holds i) ∧
      ((serve ctx q).run pool).1.map (List.map Instance.filter) =
        ctx.answer (q.map Instance.filter) := by
  obtain ⟨hs', hg, hr⟩ := follows_serve hq hs
  refine ⟨hs', hg, ?_⟩
  -- only the result matters from here on, not how the request came to it
  change Agree (StandAll ((serve ctx q).run pool).2) ((serve ctx q).run pool).1
    (ctx.answer (q.map Instance.filter)) at hr
  revert hr
  generalize ((serve ctx q).run pool).2 = pool'
  generalize ((serve ctx q).run pool).1 = r
  generalize ctx.answer (q.map Instance.filter) = y
  intro hr
  cases r with
  | error e =>
    cases y with
    | error e' =>
      obtain rfl : e = e' := hr
      exact ⟨by simp [handedOut], rfl⟩
    | ok fs => exact hr.elim
  | ok is =>
    cases y with
    | error e' => exact hr.elim
    | ok fs => exact ⟨hr.1, congrArg Except.ok hr.2⟩

/-- However a session goes, the pool is sound and everything held is in its table. -/
theorem Reached.sound (h : Reached ctx pool held) :
    Sound ctx pool ∧ ∀ i ∈ held, pool.Holds i := by
  -- a request keeps the pool sound and what was held in it; a part is in it with the whole
  induction h with
  | start => exact ⟨sound_empty ctx, by simp⟩
  | served q hq h ih =>
    obtain ⟨hs, hheld⟩ := ih
    obtain ⟨hs', hg, hout, -⟩ := serve_spec hs fun i hi => hheld i (hq i hi)
    refine ⟨hs', fun i hi => ?_⟩
    rcases List.mem_append.1 hi with hi | hi
    · exact hout i hi
    · exact hg i (hheld i hi)
  | part hi hp h ih =>
    obtain ⟨hs, hheld⟩ := ih
    refine ⟨hs, fun j hj => ?_⟩
    rcases List.mem_cons.1 hj with rfl | hj
    · exact hs.closed (hheld _ hi) _ hp
    · exact hheld j hj

/-- A session is answered as the context answers without a pool. -/
theorem Reached.serve_eq (h : Reached ctx pool held) {q : Request}
    (hq : ∀ i ∈ q.arguments, i ∈ held) :
    ((serve ctx q).run pool).1.map (List.map Instance.filter) =
      ctx.answer (q.map Instance.filter) := by
  obtain ⟨hs, hheld⟩ := h.sound
  exact (serve_spec hs fun i hi => hheld i (hq i hi)).2.2.2

/-- What the context can answer is answered, with instances of the same filters. -/
theorem Reached.serve_ok (h : Reached ctx pool held) {q : Request}
    (hq : ∀ i ∈ q.arguments, i ∈ held) {fs : List Filter}
    (hanswer : ctx.answer (q.map Instance.filter) = .ok fs) :
    ∃ is pool', (serve ctx q).run pool = (.ok is, pool') ∧ is.map Instance.filter = fs ∧
      Reached ctx pool' (is ++ held) := by
  have hserve := h.serve_eq hq
  have hreached := Reached.served q hq h
  rw [hanswer] at hserve
  generalize (serve ctx q).run pool = r at hserve hreached
  obtain ⟨r, pool'⟩ := r
  cases r with
  | error e => exact nomatch hserve
  | ok is => exact ⟨is, pool', rfl, Except.ok.inj hserve, hreached⟩

/-- Where the context answers with an error, a session does. -/
theorem Reached.serve_error (h : Reached ctx pool held) {q : Request}
    (hq : ∀ i ∈ q.arguments, i ∈ held) {e : FilterError}
    (hanswer : ctx.answer (q.map Instance.filter) = .error e) :
    ((serve ctx q).run pool).1 = .error e := by
  have hserve := h.serve_eq hq
  rw [hanswer] at hserve
  generalize ((serve ctx q).run pool).1 = r at hserve ⊢
  cases r with
  | error e' => exact congrArg Except.error (Except.error.inj hserve)
  | ok is => exact nomatch hserve

/-- What is answered goes on as a session, and the context answers alike. -/
theorem Reached.of_run (h : Reached ctx pool held) {q : Request}
    (hq : ∀ i ∈ q.arguments, i ∈ held) {is : List Instance} {pool' : Pool}
    (hrun : (serve ctx q).run pool = (.ok is, pool')) :
    Reached ctx pool' (is ++ held) ∧
      ctx.answer (q.map Instance.filter) = .ok (is.map Instance.filter) := by
  have hserve := h.serve_eq hq
  have hreached := Reached.served q hq h
  rw [hrun] at hserve hreached
  exact ⟨hreached, hserve.symm⟩

/-- A request with one filter for an answer is answered with one instance. -/
theorem Reached.serve_one (h : Reached ctx pool held) {q : Request}
    (hq : ∀ i ∈ q.arguments, i ∈ held) {f : Filter}
    (hanswer : ctx.answer (q.map Instance.filter) = .ok [f]) :
    ∃ g pool', (serve ctx q).run pool = (.ok [g], pool') ∧ g.filter = f ∧
      Reached ctx pool' (g :: held) := by
  obtain ⟨is, pool', hrun, his, hreached⟩ := h.serve_ok hq hanswer
  obtain ⟨g, rfl, hg⟩ := List.map_eq_singleton_iff.1 his
  exact ⟨g, pool', hrun, hg, hreached⟩

/-- An answer of one filter: what is handed out is one instance, and the filter is its filter. -/
theorem Reached.of_run_one (h : Reached ctx pool held) {q : Request}
    (hq : ∀ i ∈ q.arguments, i ∈ held) {x : Except FilterError Filter}
    (hx : ctx.answer (q.map Instance.filter) = do return [← x]) {is : List Instance}
    {pool' : Pool} (hrun : (serve ctx q).run pool = (.ok is, pool')) :
    ∃ g, is = [g] ∧ x = .ok g.filter ∧ Reached ctx pool' (g :: held) := by
  obtain ⟨hreached, hanswer⟩ := h.of_run hq hrun
  rw [hx] at hanswer
  obtain ⟨f, hf, hsingle⟩ := bind_eq_ok.1 hanswer
  obtain ⟨g, rfl, hg⟩ := List.map_eq_singleton_iff.1 (pure_eq_ok.1 hsingle).symm
  rw [← hg] at hf
  exact ⟨g, rfl, hf, hreached⟩

/-- In a session one filter is one instance. -/
theorem Reached.eq_of_filter_eq (h : Reached ctx pool held) {i j : Instance} (hi : i ∈ held)
    (hj : j ∈ held) (hfilter : i.filter = j.filter) : i = j :=
  h.sound.1.eq_of_filter_eq (h.sound.2 i hi) (h.sound.2 j hj) hfilter

/-- A request whose answer is the filter of an instance that is held is answered with that
instance. -/
theorem Reached.serve_held (h : Reached ctx pool held) {q : Request}
    (hq : ∀ i ∈ q.arguments, i ∈ held) {i : Instance} (hi : i ∈ held)
    (hanswer : ctx.answer (q.map Instance.filter) = .ok [i.filter]) :
    ∃ pool', (serve ctx q).run pool = (.ok [i], pool') := by
  obtain ⟨g, pool', hrun, hg, hreached⟩ := h.serve_one hq hanswer
  have hsame : g = i :=
    hreached.eq_of_filter_eq List.mem_cons_self (List.mem_cons_of_mem g hi) hg
  rw [hsame] at hrun
  exact ⟨pool', hrun⟩

/-- A filter that comes back from its outline can be held. -/
theorem Reached.exists_of_rebuild {f : Filter}
    (h : ctx.answer (.rebuild f.outline) = .ok [f]) :
    ∃ pool i, Reached ctx pool [i] ∧ i.filter = f := by
  have hargs : ∀ i ∈ (Query.rebuild f.outline : Request).arguments, i ∈ ([] : List Instance) := by
    simp [Query.arguments]
  obtain ⟨i, pool, -, hi, hreached⟩ := Reached.start.serve_one hargs h
  exact ⟨pool, i, hreached, hi⟩

/-- The request for the instance of what `φ` makes of a filter. -/
structure Requests (ctx : Context) (request : Instance → Request) (φ : Filter → Filter) : Prop where
  arguments : ∀ i, (request i).arguments = [i]
  answer : ∀ i, ctx.answer ((request i).map Instance.filter) = .ok [φ i.filter]

section Requests

variable {request : Instance → Request} {φ : Filter → Filter}

/-- A request that makes something of every filter is served, and what is handed out is held. -/
theorem Reached.serve_request (h : Reached ctx pool held) (hrequest : Requests ctx request φ)
    {i : Instance} (hi : i ∈ held) :
    ∃ g pool', (serve ctx (request i)).run pool = (.ok [g], pool') ∧ g.filter = φ i.filter ∧
      Reached ctx pool' (g :: held) := by
  apply h.serve_one _ (hrequest.answer i)
  rw [hrequest.arguments]
  exact List.forall_mem_singleton.2 hi

/-- What is asked for is handed out again if it is held already. -/
theorem Reached.request_held (h : Reached ctx pool held) (hrequest : Requests ctx request φ)
    {i g : Instance} (hi : i ∈ held) (hg : g ∈ held) (hfilter : g.filter = φ i.filter) :
    ∃ pool', (serve ctx (request i)).run pool = (.ok [g], pool') := by
  apply h.serve_held _ hg
  · rw [hrequest.answer, hfilter]
  · rw [hrequest.arguments]
    exact List.forall_mem_singleton.2 hi

end Requests

/-- Asked of a session, the complement of an instance is that of its filter. -/
theorem requests_complement (ctx : Context) : Requests ctx Query.complement Filter.complement where
  arguments _ := rfl
  answer _ := rfl

/-- What a session hands out as the complement. -/
theorem Reached.serve_complement (h : Reached ctx pool held) {i : Instance} (hi : i ∈ held) :
    ∃ c pool', (serve ctx (.complement i)).run pool = (.ok [c], pool') ∧
      c.filter = i.filter.complement ∧ Reached ctx pool' (c :: held) :=
  h.serve_request (requests_complement ctx) hi

/-- The parts of a filter that is kept are kept. -/
theorem kept_parts {P : Filter → Prop} (hP : Kept ctx P) {i : Instance} (h : P i.filter) :
    ∀ p ∈ i.node.parts, P p.filter := by
  obtain ⟨id, depth, node⟩ := i
  cases node with
  | opened | closed | compare => simp [Node.parts]
  | existence e c negated sub => simpa [Node.parts] using hP.sub h
  | junction e kind left right =>
    obtain ⟨⟨-, hl⟩, -, hr⟩ := hP.operands h
    simpa [Node.parts] using ⟨hl, hr⟩

/-- What every step keeps holds of everything held. -/
theorem Reached.kept {P : Filter → Prop} (h : Reached ctx pool held) (hP : Kept ctx P) :
    ∀ i ∈ held, P i.filter := by
  induction h with
  | start => simp
  | @served pool held q hq h ih =>
    have hargs : ∀ f ∈ (q.map Instance.filter).arguments, P f := by
      rw [Query.arguments_map]
      intro f hf
      obtain ⟨i, hi, rfl⟩ := List.mem_map.1 hf
      exact ih i (hq i hi)
    have hserve := h.serve_eq hq
    intro i hi
    -- what is new answers a query about filters with the property, by induction
    rcases List.mem_append.1 hi with hi | hi
    · cases hr : ((serve ctx q).run pool).1 with
      | error e =>
        rw [hr] at hi
        simp [handedOut] at hi
      | ok is =>
        rw [hr] at hi hserve
        exact hP.answer hargs hserve.symm i.filter (List.mem_map_of_mem hi)
    · exact ih i hi
  | part hi hp h ih =>
    intro j hj
    rcases List.mem_cons.1 hj with rfl | hj
    · exact kept_parts hP (ih _ hi) j hp
    · exact ih j hj

/-! ## A short session -/

namespace Sample

/-- Orders with a total and with lines. -/
def order : Entity :=
  ⟨"order", [⟨"total", .scalar .int, false⟩, ⟨"lines", .relation "line" .toMany, false⟩]⟩

/-- Lines of orders. -/
def line : Entity :=
  ⟨"line", [⟨"amount", .scalar .int, true⟩, ⟨"order", .relation "order" .toOne, false⟩]⟩

/-- Orders and their lines in the standard configuration. -/
def context : Context where
  schema :=
    { entities := [order, line]
      nodup_names := by decide
      nodup_fields := by decide
      targets_registered := by simp [order, line, PropertyKind.target?] }
  config := .standard

/-- The orders of some total without a line over more than that of its order. -/
def text : String := "total = ? & !lines((order).total > ?)"

/-- The tokens of the text. -/
def tokens : List Token :=
  (scan text).toOption.getD []

/-- The derivation of the text. -/
def phrase : Phrase .filter :=
  .single .or (.more .and (.single .and (.comparison ⟨⟨"total", false⟩, []⟩ .eq))
    (.not (.rows ⟨⟨"lines", false⟩, []⟩
      (.single .or (.single .and (.comparison ⟨⟨"order", true⟩, [⟨"total", false⟩]⟩ .gt))))))

/-- The filter that the text spells. -/
def filter : Filter :=
  let total : Property := ⟨⟨"total", .scalar .int, false⟩, "order"⟩
  let lines : Property := ⟨⟨"lines", .relation "line" .toMany, false⟩, "order"⟩
  let order : Property := ⟨⟨"order", .relation "order" .toOne, false⟩, "line"⟩
  .junction "order" .and (.compare ⟨"order", ⟨⟨[], ⟨total, false⟩⟩, .eq⟩, .unbound⟩)
    (.existence "order" ⟨[], ⟨lines, false⟩⟩ true
      (.compare ⟨"line", ⟨⟨[⟨order, true⟩], ⟨total, false⟩⟩, .gt⟩, .unbound⟩))

/-- The comparison of the total of an order with a parameter. -/
def total (op : RelOp) : Filter :=
  .compare ⟨"order", ⟨⟨[], ⟨⟨⟨"total", .scalar .int, false⟩, "order"⟩, false⟩⟩, op⟩, .unbound⟩

/-- The orders with a line. -/
def anyLine : Filter :=
  .existence "order" ⟨[], ⟨⟨⟨"lines", .relation "line" .toMany, false⟩, "order"⟩, false⟩⟩ false
    (.opened "line")

/-- The request to parse the text. -/
def request : Request :=
  .parse "order" text

/-- The pool after the text was parsed. -/
def after : Pool :=
  ((serve context request).run empty).2

/-- What was handed out for the text. -/
def given : List Instance :=
  handedOut ((serve context request).run empty).1 ++ []

theorem arguments_request : ∀ i ∈ request.arguments, i ∈ ([] : List Instance) := by
  simp [request, Query.arguments]

theorem reached : Reached context after given :=
  .served request arguments_request .start

theorem filter_given : given.map Instance.filter = [filter] := by
  have hanswer : context.answer (request.map Instance.filter) = .ok [filter] := by
    decide +kernel
  have hserve : ((serve context request).run empty).1.map (List.map Instance.filter) =
      context.answer (request.map Instance.filter) :=
    Reached.start.serve_eq arguments_request
  -- the table cannot be evaluated, so the answer is taken from the context instead
  rw [hanswer] at hserve
  unfold given
  cases hr : ((serve context request).run empty).1 with
  | error e =>
    rw [hr] at hserve
    exact nomatch hserve
  | ok is =>
    rw [hr] at hserve
    rw [List.append_nil]
    exact Except.ok.inj hserve

theorem exists_given : ∃ i, given = [i] ∧ i ∈ given ∧ i.filter = filter := by
  obtain ⟨i, hgiven, hfilter⟩ := List.map_eq_singleton_iff.1 filter_given
  refine ⟨i, hgiven, ?_, hfilter⟩
  rw [hgiven]
  exact List.mem_singleton_self i

/-- A filter that is rebuilt from its own outline is held in some session. -/
theorem exists_reached {f : Filter} (h : context.answer (.rebuild f.outline) = .ok [f]) :
    ∃ pool i, Reached context pool [i] ∧ i.filter = f :=
  Reached.exists_of_rebuild h

end Sample

/-! ## Everything handed out is in shape -/

theorem fits_parts {i : Instance} (h : i.filter.Fits ctx i.filter.entity) :
    ∀ p ∈ i.node.parts, p.filter.Fits ctx p.filter.entity :=
  kept_parts (fits_kept ctx) h

/-- Everything held is in shape, over entities of the schema, and no deeper than allowed. -/
theorem Reached.fits (h : Reached ctx pool held) :
    ∀ i ∈ held, i.filter.Fits ctx i.filter.entity :=
  h.kept (fits_kept ctx)

/-- Whatever was asked, every node of everything handed out is in shape, the depth kept with it
is the depth of its filter, and that is within the limit. -/
theorem Reached.all_inShape (h : Reached ctx pool held) :
    ∀ i ∈ held, ∀ j ∈ i.nodes, j.filter.InShape ∧ j.depth = j.filter.depth ∧
      j.depth ≤ ctx.config.maxDepth := by
  obtain ⟨hs, hheld⟩ := h.sound
  intro i hi j hj
  -- fitting passes on to parts, and so to every node
  have hfits : j.filter.Fits ctx j.filter.entity :=
    Instance.forall_nodes (fun _ h => fits_parts h) (h.fits i hi) j hj
  have hdepth := hs.depth_eq (hs.holds_nodes (hheld i hi) j hj)
  exact ⟨hfits.inShape, hdepth, hdepth ▸ hfits.depth⟩

theorem Sample.all_inShape_given :
    Sample.given.map Instance.filter = [Sample.filter] ∧
      ∀ i ∈ Sample.given, ∀ j ∈ i.nodes, j.filter.InShape ∧ j.depth = j.filter.depth ∧
        j.depth ≤ Sample.context.config.maxDepth :=
  ⟨Sample.filter_given, Reached.all_inShape Sample.reached⟩

/-! ## One instance for one filter -/

/-- Everything handed out is in the table under its key, with all that is beneath it, and two
instances have one number exactly if they are one filter; then they are one instance. -/
theorem Reached.one_instance_per_filter (h : Reached ctx pool held) :
    (∀ i ∈ held, ∀ j ∈ i.nodes, pool.instances[j.key]? = some j) ∧
      ∀ i ∈ held, ∀ j ∈ held, (i.id = j.id ↔ i.filter = j.filter) ∧
        (i.filter = j.filter → i = j) := by
  obtain ⟨hs, hheld⟩ := h.sound
  refine ⟨fun i hi j hj => hs.holds_nodes (hheld i hi) j hj, fun i hi j hj => ⟨?_, ?_⟩⟩
  · exact hs.id_eq_iff (hheld i hi) (hheld j hj)
  · exact hs.eq_of_filter_eq (hheld i hi) (hheld j hj)

theorem Sample.one_instance_given :
    Sample.given.map Instance.filter = [Sample.filter] ∧
      (∀ i ∈ Sample.given, ∀ j ∈ i.nodes, Sample.after.instances[j.key]? = some j) ∧
      ∀ i ∈ Sample.given, ∀ j ∈ Sample.given, (i.id = j.id ↔ i.filter = j.filter) ∧
        (i.filter = j.filter → i = j) :=
  ⟨Sample.filter_given, Reached.one_instance_per_filter Sample.reached⟩

/-! ## What was asked before makes no difference -/

/-- Reordering does not ask whether texts are remembered. -/
theorem reordered_withCache {b : Bool} (run : Option Junction) (f : Filter) :
    (ctx.withCache b).reordered run f = ctx.reordered run f := by
  induction f generalizing run with
  | opened | closed | compare => cases run <;> rfl
  | existence e c negated sub ih =>
    simp only [Context.reordered, ih]
    rfl
  | junction e kind left right ihl ihr =>
    simp only [Context.reordered, ihl, ihr]
    rfl

/-- Without a pool nothing is remembered, so the setting makes no difference. -/
theorem answer_withCache {b : Bool} (q : Query Filter) :
    (ctx.withCache b).answer q = ctx.answer q := by
  cases q with
  | optimize f =>
    simp only [Context.answer, Context.optimize, reordered_withCache]
    rfl
  | _ => rfl

/-- Two sessions, with or without the memo of parsed texts, get the same filters or the same
error for requests about the same filters, whatever they asked before. And what their pools
remember is what would be computed. -/
theorem Reached.history_independent {b : Bool} {pool' : Pool} {held' : List Instance}
    (h : Reached ctx pool held) (h' : Reached (ctx.withCache b) pool' held') {q q' : Request}
    (hq : ∀ i ∈ q.arguments, i ∈ held) (hq' : ∀ i ∈ q'.arguments, i ∈ held')
    (hsame : q.map Instance.filter = q'.map Instance.filter) :
    ((serve ctx q).run pool).1.map (List.map Instance.filter) =
        ((serve (ctx.withCache b) q').run pool').1.map (List.map Instance.filter) ∧
      Transparent ctx pool ∧ Transparent (ctx.withCache b) pool' := by
  refine ⟨?_, h.sound.1.toTransparent, h'.sound.1.toTransparent⟩
  rw [h.serve_eq hq, h'.serve_eq hq', hsame, answer_withCache]

/-- After the text was parsed, and before anything was asked, it is parsed alike. -/
theorem Sample.parsed_alike :
    ((serve Sample.context Sample.request).run Sample.after).1.map (List.map Instance.filter) =
        ((serve (Sample.context.withCache false) Sample.request).run empty).1.map
          (List.map Instance.filter) ∧
      Transparent Sample.context Sample.after ∧
      Transparent (Sample.context.withCache false) empty :=
  Reached.history_independent Sample.reached .start
    (by simp [Sample.request, Query.arguments]) Sample.arguments_request rfl

/-! ## Reading texts -/

section Parsing

variable {entity text : String}

/-- A text is refused in a session exactly as it is refused without a pool. -/
theorem Reached.parse_error_iff (h : Reached ctx pool held) {e : FilterError} :
    ((serve ctx (.parse entity text)).run pool).1 = .error e ↔
      ctx.parse entity text = .error e := by
  have hserve := h.serve_eq (q := .parse entity text) (by simp [Query.arguments])
  generalize ((serve ctx (.parse entity text)).run pool).1 = r at hserve ⊢
  rw [Query.map, Context.answer] at hserve
  cases hparse : ctx.parse entity text with
  | error e' =>
    rw [hparse] at hserve
    cases r with
    | error e'' =>
      obtain rfl : e'' = e' := Except.error.inj hserve
      rw [Except.error.injEq, Except.error.injEq]
    | ok is => cases hserve
  | ok f =>
    rw [hparse] at hserve
    cases r with
    | error e'' => cases hserve
    | ok is => simp

/-- What is parsed without a pool is parsed in a session. -/
theorem Reached.parse_ok (h : Reached ctx pool held) {f : Filter}
    (hparse : ctx.parse entity text = .ok f) :
    ∃ g pool', (serve ctx (.parse entity text)).run pool = (.ok [g], pool') ∧ g.filter = f ∧
      Reached ctx pool' (g :: held) := by
  refine h.serve_one (q := .parse entity text) (by simp [Query.arguments]) ?_
  simp [Query.map, Context.answer, hparse]

/-- A text of a filter that is held is parsed as the instance that is held. -/
theorem Reached.parse_held (h : Reached ctx pool held) {i : Instance} (hi : i ∈ held)
    (hparse : ctx.parse entity text = .ok i.filter) :
    ∃ pool', (serve ctx (.parse entity text)).run pool = (.ok [i], pool') := by
  refine h.serve_held (q := .parse entity text) (by simp [Query.arguments]) hi ?_
  simp [Query.map, Context.answer, hparse]

end Parsing

/-- In a session the reader gives a filter exactly if the words spell it, and what is spelled is
neither open nor closed. -/
theorem Reached.reads_iff_spells (h : Reached ctx pool held) (e : Entity) (text : String)
    (tokens : List Token) (f : Filter) :
    ((∃ i pool', (wholeFilter ⟨builder ctx, text⟩ e tokens).run pool = (.ok i, pool') ∧
        i.filter = f) ↔
      Spells ctx ctx.config.maxDepth .filter e (tokens.map Token.lexeme) f) ∧
      (Spells ctx ctx.config.maxDepth .filter e (tokens.map Token.lexeme) f →
        f.isOpen = false ∧ f.isClosed = false) := by
  have hread : Follows ctx Stands pool (wholeFilter ⟨builder ctx, text⟩ e tokens)
      (wholeFilter ⟨ctx.builder, text⟩ e tokens) := follows_wholeFilter e tokens
  obtain ⟨-, -, hr⟩ := hread h.sound.1
  refine ⟨?_, fun ⟨p, _, hf, _⟩ => (p.denote_proper hf).1⟩
  have hspells : wholeFilter ⟨ctx.builder, text⟩ e tokens = .ok f ↔
      Spells ctx ctx.config.maxDepth .filter e (tokens.map Token.lexeme) f := wholeFilter_eq_ok
  -- in the pool the reader follows the one without a pool, and that one reads what is spelled
  rw [← hspells]
  constructor
  · rintro ⟨i, pool', hrun, rfl⟩
    rw [hrun] at hr
    cases hy : wholeFilter ⟨ctx.builder, text⟩ e tokens with
    | error e => rw [hy] at hr; exact hr.elim
    | ok f => rw [hy] at hr; rw [hr.2]
  · intro hf
    rw [hf] at hr
    generalize (wholeFilter ⟨builder ctx, text⟩ e tokens).run pool = r at hr
    obtain ⟨r, pool'⟩ := r
    cases r with
    | error e => exact hr.elim
    | ok i => exact ⟨i, pool', rfl, hr.2⟩

theorem Sample.reads_text :
    ∃ i pool', (wholeFilter ⟨builder Sample.context, Sample.text⟩ Sample.order Sample.tokens).run
        Sample.after = (.ok i, pool') ∧ i.filter = Sample.filter :=
  (Reached.reads_iff_spells Sample.reached Sample.order Sample.text Sample.tokens
    Sample.filter).1.2
      ⟨Sample.phrase, by decide +kernel, by decide +kernel, by decide, by decide⟩

end Pool

end RowFilter
