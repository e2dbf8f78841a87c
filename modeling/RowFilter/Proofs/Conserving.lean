import RowFilter.Proofs.CostOrder
import RowFilter.Proofs.NormalForms
import RowFilter.Proofs.ValueSets

/-!
# Rewriting conserves comparisons

Normal forms repeat comparisons and put them into another order, and reordering permutes the
operands of whole runs. But neither makes a comparison anew: what stands in the result stood in
the filter, and unless the result is only a part of it, nothing is lost. So a value set for a
bound filter has a slot for every parameter of whatever the filter is rewritten to.
-/

namespace RowFilter

variable {ctx : Context} {e : String} {kind outer : Junction} {f g : Filter} {fs : List Filter}
  {l : Leaf}

/-! ## Comparisons of operands -/

namespace Filter

theorem leaves_groupLeft (hfs : fs ≠ []) :
    (groupLeft e kind fs).leaves = fs.flatMap leaves :=
  flatMap_groupLeft (leaves_junction e kind) hfs

theorem mem_leaves_iff : l ∈ f.leaves ↔ ∃ a ∈ f.atoms, l ∈ a.leaves := by
  induction f with
  | opened | closed | compare | existence => simp [atoms]
  | junction e kind left right ihl ihr =>
    rw [leaves_junction, List.mem_append, ihl, ihr, atoms]
    simp only [List.mem_append, or_and_right, exists_or]

/-- Every comparison stands in some clause, and no other does. -/
theorem mem_leaves_clauseFilters :
    (∃ k ∈ f.clauseFilters outer, l ∈ k.leaves) ↔ l ∈ f.leaves := by
  rw [mem_leaves_iff]
  constructor
  · rintro ⟨k, hk, hl⟩
    obtain ⟨c, hc, rfl⟩ := List.mem_map.1 hk
    obtain ⟨hne, hmem⟩ := mem_expand hc
    rw [leaves_groupLeft hne] at hl
    obtain ⟨a, ha, hl⟩ := List.mem_flatMap.1 hl
    exact ⟨a, hmem a ha, hl⟩
  · rintro ⟨a, ha, hl⟩
    obtain ⟨c, hc, hac⟩ := exists_mem_expand outer ha
    refine ⟨_, List.mem_map_of_mem hc, ?_⟩
    rw [leaves_groupLeft (mem_expand hc).1]
    exact List.mem_flatMap.2 ⟨a, hac, hl⟩

end Filter

/-! ## Comparisons of what is handed out -/

theorem leaves_split (hshape : f.InShape) (hdepth : f.depth ≤ ctx.config.maxDepth)
    (h : ctx.split outer f = .ok fs) (l : Leaf) : (∃ k ∈ fs, l ∈ k.leaves) ↔ l ∈ f.leaves := by
  rw [Context.split_eq_ok hshape hdepth h]
  exact Filter.mem_leaves_clauseFilters

/-- A normal form has the comparisons of the filter. -/
theorem leaves_normalForm (hshape : f.InShape) (hdepth : f.depth ≤ ctx.config.maxDepth)
    (h : ctx.normalForm outer f = .ok g) (l : Leaf) : l ∈ g.leaves ↔ l ∈ f.leaves := by
  obtain ⟨rfl, -⟩ := Context.normalForm_eq_ok hshape hdepth h
  rw [Filter.normalized, Filter.leaves_groupLeft (f.clauseFilters_ne_nil outer), List.mem_flatMap]
  exact Filter.mem_leaves_clauseFilters

/-- Reordering permutes the comparisons. -/
theorem leaves_optimize (hshape : f.InShape) (hdepth : f.depth ≤ ctx.config.maxDepth)
    (h : ctx.optimize f = .ok g) : g.leaves.Perm f.leaves := by
  rw [Context.optimize_eq hshape hdepth] at h
  obtain ⟨rfl, -⟩ := Context.withinDepth_eq_ok.1 h
  exact f.leaves_inCostOrder

/-! ## Reading values -/

namespace ValueSet

variable {vs : ValueSet}

/-- The value of a parameter, if there is a slot for it with one. -/
def valueOf? (vs : ValueSet) (l : Leaf) : Option Value :=
  (vs.slot? l).bind Slot.value

/-- The values of the parameters among the comparisons, one for each that has one. -/
def suppliedTo (vs : ValueSet) (ls : List Leaf) : List Value :=
  (ls.filter fun l => l.operand.isParameter).filterMap vs.valueOf?

/-- How many parameters among the comparisons have no value. -/
def missingFor (vs : ValueSet) (ls : List Leaf) : Nat :=
  (ls.filter fun l => l.operand.isParameter).countP fun l => (vs.valueOf? l).isNone

/-- All parameters among the comparisons have slots. -/
def Knows (vs : ValueSet) (ls : List Leaf) : Prop :=
  ∀ l ∈ ls, l.operand.isParameter = true → l ∈ vs.leaves

theorem exists_slot? {l : Leaf} (h : l ∈ vs.leaves) : ∃ s, vs.slot? l = some s := by
  obtain ⟨s, hs, rfl⟩ := List.mem_map.1 h
  unfold slot?
  rw [← Option.isSome_iff_exists, List.find?_isSome]
  exact ⟨s, hs, decide_eq_true rfl⟩

/-- Parameters with slots are read one after the other; those without values are counted. -/
theorem Coherent.readFrom_eq (h : vs.Coherent) {ls : List Leaf} (hknown : vs.Knows ls)
    (read : List Value) (missing : Nat) :
    vs.readFrom read missing ls =
      if missing + vs.missingFor ls = 0 then .ok (read.reverse ++ vs.suppliedTo ls)
      else .error (.binding (.blankSlots (missing + vs.missingFor ls))) := by
  induction ls generalizing read missing with
  | nil =>
    rw [suppliedTo, List.filter_nil, List.filterMap_nil, List.append_nil]
    rfl
  | cons l ls ih =>
    have hrest : vs.Knows ls := fun k hk => hknown k (List.mem_cons_of_mem _ hk)
    unfold readFrom
    cases hoperand : l.operand with
    | constant v =>
      have hparam : ¬l.operand.isParameter = true := by simp [hoperand, Operand.isParameter]
      show vs.readFrom read missing ls = _
      rw [ih hrest, missingFor, missingFor, suppliedTo, suppliedTo,
        List.filter_cons_of_neg (p := fun l : Leaf => l.operand.isParameter) hparam]
    | unbound =>
      -- an unbound parameter has no slot
      have hparam : l.operand.isParameter = true := by rw [hoperand]; rfl
      obtain ⟨-, id, hid⟩ := h.mem_leaves.1 (hknown l List.mem_cons_self hparam)
      rw [hoperand] at hid
      cases hid
    | bound id =>
      have hparam : l.operand.isParameter = true := by rw [hoperand]; rfl
      obtain ⟨⟨leaf, value⟩, hs⟩ := exists_slot? (hknown l List.mem_cons_self hparam)
      have hvalue : vs.valueOf? l = value := by rw [valueOf?, hs]; rfl
      rw [missingFor, suppliedTo,
        List.filter_cons_of_pos (p := fun l : Leaf => l.operand.isParameter) hparam,
        List.countP_cons]
      simp only [hs]
      cases value with
      | none =>
        show vs.readFrom read (missing + 1) ls = _
        rw [ih hrest, List.filterMap_cons_none hvalue, hvalue, Nat.add_right_comm, Nat.add_assoc]
        rfl
      | some v =>
        show vs.readFrom (v :: read) missing ls = _
        rw [ih hrest, List.filterMap_cons_some hvalue, hvalue, List.reverse_cons,
          List.append_assoc]
        rfl

/-- In a full set every slot has a value. -/
theorem Coherent.valueOf?_of_isFull (h : vs.Coherent) (hfull : vs.isFull = true) {l : Leaf}
    (hl : l ∈ vs.leaves) : ∃ v, vs.valueOf? l = some v := by
  obtain ⟨s, hs⟩ := exists_slot? hl
  have hblank : vs.slots.countP (fun s => s.value.isNone) = 0 := by
    rw [← h.blank_eq]
    exact beq_iff_eq.1 hfull
  have hvalue : ¬s.value.isNone = true :=
    List.countP_eq_zero.1 hblank s (List.mem_of_find?_eq_some hs)
  rw [Bool.not_eq_true, Option.isNone_eq_false_iff] at hvalue
  obtain ⟨v, hv⟩ := Option.isSome_iff_exists.1 hvalue
  exact ⟨v, by rw [valueOf?, hs]; exact hv⟩

/-- A full set is read without an error, slot by slot. -/
theorem Coherent.readFrom_of_isFull (h : vs.Coherent) (hfull : vs.isFull = true) {ls : List Leaf}
    (hknown : vs.Knows ls) :
    ∃ read, vs.readFrom [] 0 ls = .ok read ∧
      read.map some = (ls.filter fun l => l.operand.isParameter).map vs.valueOf? := by
  have hvalue : ∀ l ∈ ls.filter fun l => l.operand.isParameter, ∃ v, vs.valueOf? l = some v := by
    intro l hl
    obtain ⟨hl, hparam⟩ := List.mem_filter.1 hl
    exact h.valueOf?_of_isFull hfull (hknown l hl hparam)
  have hmissing : vs.missingFor ls = 0 := by
    refine List.countP_eq_zero.2 fun l hl => ?_
    obtain ⟨v, hv⟩ := hvalue l hl
    rw [hv]
    exact Bool.false_ne_true
  refine ⟨vs.suppliedTo ls, ?_, ?_⟩
  · rw [h.readFrom_eq hknown, hmissing]
    rfl
  · unfold suppliedTo
    generalize ls.filter (fun l => l.operand.isParameter) = parameters at hvalue ⊢
    induction parameters with
    | nil => rfl
    | cons l parameters ih =>
      obtain ⟨v, hv⟩ := hvalue l List.mem_cons_self
      rw [List.filterMap_cons_some hv, List.map_cons, List.map_cons, hv,
        ih fun k hk => hvalue k (List.mem_cons_of_mem _ hk)]

end ValueSet

/-! ## What a filter is rewritten to -/

namespace Pool

/-- The session holds the instance, and the instance came from the filter `f`: as a whole, by
normal forms and reordering; or else also by taking a clause or a part. Other requests may have
come in between. -/
inductive Rewritten (ctx : Context) (f : Filter) :
    (whole : Bool) → Pool → List Instance → Instance → Prop where
  | start {whole : Bool} {pool : Pool} {held : List Instance} {i : Instance}
      (h : Reached ctx pool held) (hi : i ∈ held) (hf : i.filter = f) :
      Rewritten ctx f whole pool held i
  | normalForm {whole : Bool} {pool pool' : Pool} {held : List Instance} {i j : Instance}
      (outer : Junction) (h : Rewritten ctx f whole pool held i)
      (hrun : (serve ctx (.normalForm outer i)).run pool = (.ok [j], pool')) :
      Rewritten ctx f whole pool' (j :: held) j
  | optimize {whole : Bool} {pool pool' : Pool} {held : List Instance} {i j : Instance}
      (h : Rewritten ctx f whole pool held i)
      (hrun : (serve ctx (.optimize i)).run pool = (.ok [j], pool')) :
      Rewritten ctx f whole pool' (j :: held) j
  | clause {whole : Bool} {pool pool' : Pool} {held cs : List Instance} {i j : Instance}
      (outer : Junction) (h : Rewritten ctx f whole pool held i)
      (hrun : (serve ctx (.split outer i)).run pool = (.ok cs, pool')) (hj : j ∈ cs) :
      Rewritten ctx f false pool' (cs ++ held) j
  | part {whole : Bool} {pool : Pool} {held : List Instance} {i j : Instance}
      (h : Rewritten ctx f whole pool held i) (hj : j ∈ i.node.parts) :
      Rewritten ctx f false pool (j :: held) j
  | meanwhile {whole : Bool} {pool : Pool} {held : List Instance} {i : Instance} (q : Request)
      (hq : ∀ k ∈ q.arguments, k ∈ held) (h : Rewritten ctx f whole pool held i) :
      Rewritten ctx f whole ((serve ctx q).run pool).2
        (handedOut ((serve ctx q).run pool).1 ++ held) i

variable {pool : Pool} {held : List Instance} {whole : Bool} {i j : Instance}

theorem leaves_part (hj : j ∈ i.node.parts) : ∀ l ∈ j.filter.leaves, l ∈ i.filter.leaves := by
  obtain ⟨id, depth, node⟩ := i
  intro l hl
  cases node with
  | opened | closed | compare => exact nomatch hj
  | existence e c negated sub =>
    rw [List.mem_singleton.1 hj] at hl
    exact hl
  | junction e kind left right =>
    show l ∈ (Filter.junction e kind left.filter right.filter).leaves
    rw [Filter.leaves_junction, List.mem_append]
    simp only [Node.parts, List.mem_cons, List.not_mem_nil, or_false] at hj
    rcases hj with rfl | rfl
    · exact .inl hl
    · exact .inr hl

/-- The session holds the instance, and it has only comparisons of `f`; as a whole it has all of
them. -/
theorem Rewritten.leaves (h : Rewritten ctx f whole pool held i) :
    Reached ctx pool held ∧ i ∈ held ∧ (∀ l ∈ i.filter.leaves, l ∈ f.leaves) ∧
      (whole = true → ∀ l ∈ f.leaves, l ∈ i.filter.leaves) := by
  induction h with
  | start h hi hf =>
    rw [hf]
    exact ⟨h, hi, fun _ hl => hl, fun _ _ hl => hl⟩
  | @normalForm whole pool pool' held i j outer h hrun ih =>
    obtain ⟨hreached, hi, hsub, hall⟩ := ih
    have hargs : ∀ k ∈ (Query.normalForm outer i).arguments, k ∈ held := by
      simpa [Query.arguments] using hi
    obtain ⟨g, hg, hform, hreached'⟩ := hreached.of_run_one hargs rfl hrun
    obtain rfl := List.singleton_inj.1 hg
    have hfits := hreached.fits i hi
    have hleaves := leaves_normalForm hfits.inShape hfits.depth hform
    exact ⟨hreached', List.mem_cons_self, fun l hl => hsub l ((hleaves l).1 hl),
      fun hwhole l hl => (hleaves l).2 (hall hwhole l hl)⟩
  | @optimize whole pool pool' held i j h hrun ih =>
    obtain ⟨hreached, hi, hsub, hall⟩ := ih
    have hargs : ∀ k ∈ (Query.optimize i).arguments, k ∈ held := by
      simpa [Query.arguments] using hi
    obtain ⟨g, hg, hform, hreached'⟩ := hreached.of_run_one hargs rfl hrun
    obtain rfl := List.singleton_inj.1 hg
    have hfits := hreached.fits i hi
    have hleaves := leaves_optimize hfits.inShape hfits.depth hform
    exact ⟨hreached', List.mem_cons_self, fun l hl => hsub l (hleaves.mem_iff.1 hl),
      fun hwhole l hl => hleaves.mem_iff.2 (hall hwhole l hl)⟩
  | @clause whole pool pool' held cs i j outer h hrun hj ih =>
    obtain ⟨hreached, hi, hsub, -⟩ := ih
    have hargs : ∀ k ∈ (Query.split outer i).arguments, k ∈ held := by
      simpa [Query.arguments] using hi
    obtain ⟨hreached', hanswer⟩ := hreached.of_run hargs hrun
    have hfits := hreached.fits i hi
    have hleaves := leaves_split hfits.inShape hfits.depth hanswer
    refine ⟨hreached', List.mem_append_left _ hj, ?_, ?_⟩
    · intro l hl
      exact hsub l ((hleaves l).1 ⟨j.filter, List.mem_map_of_mem hj, hl⟩)
    · -- a clause may leave comparisons to the other clauses, so it is not taken as whole
      intro hwhole
      cases hwhole
  | part h hj ih =>
    obtain ⟨hreached, hi, hsub, -⟩ := ih
    refine ⟨.part hi hj hreached, List.mem_cons_self, ?_, ?_⟩
    · intro l hl
      exact hsub l (leaves_part hj l hl)
    · intro hwhole
      cases hwhole
  | meanwhile q hq h ih =>
    obtain ⟨hreached, hi, hsub, hall⟩ := ih
    exact ⟨.served q hq hreached, List.mem_append_right _ hi, hsub, hall⟩

/-- Whatever the filter of a value set is rewritten to, and in whatever pieces, the set has a slot
for each parameter of the result and can be read for it: no parameter is unknown or without a
number, and if the set is full, the value of its slot is read for each occurrence from left to
right. As a whole the result has the very parameters of the filter. -/
theorem Rewritten.served {vs : ValueSet} (harises : vs.Arises ctx)
    (h : Rewritten ctx vs.filter whole pool held i) :
    (∀ l ∈ i.filter.parameters, l ∈ vs.leaves) ∧
      (∀ text, vs.valuesFor i.filter ≠ .error (.binding (.unknownParameter text)) ∧
        vs.valuesFor i.filter ≠ .error (.binding (.unbound text))) ∧
      (vs.isFull = true → ∃ read, vs.valuesFor i.filter = .ok read ∧
        read.map some = i.filter.parameters.map fun l => (vs.slot? l).bind Slot.value) ∧
      (whole = true → ∀ l, l ∈ i.filter.parameters ↔ l ∈ vs.filter.parameters) := by
  have hc := harises.coherent
  obtain ⟨-, -, hsub, hall⟩ := h.leaves
  have hslots : ∀ l ∈ i.filter.parameters, l ∈ vs.leaves := by
    intro l hl
    obtain ⟨hl, hparam⟩ := List.mem_filter.1 hl
    rw [hc.leaves_eq, List.mem_eraseDups]
    exact List.mem_filter.2 ⟨hsub l hl, hparam⟩
  have hknown : vs.Knows i.filter.leaves :=
    fun l hl hparam => hslots l (List.mem_filter.2 ⟨hl, hparam⟩)
  refine ⟨hslots, ?_, fun hfull => hc.readFrom_of_isFull hfull hknown, ?_⟩
  · -- the only error that is left is that some slots have no value
    intro text
    rw [ValueSet.valuesFor, hc.readFrom_eq hknown]
    split
    · exact ⟨fun h => (nomatch h), fun h => (nomatch h)⟩
    · constructor <;> intro h <;> cases h
  · intro hwhole l
    rw [Filter.parameters, Filter.parameters, List.mem_filter, List.mem_filter]
    exact and_congr_left fun _ => ⟨hsub l, hall hwhole l⟩

/-! ### One parameter in two clauses -/

namespace Sample

open ValueSet.Sample

/-- The comparison of the total of an order with another parameter. -/
def numberedNext : Leaf :=
  { numbered with operand := .bound 1 }

/-- The orders with a line of some amount. -/
def someAmount : Filter :=
  .existence "order" ⟨[], ⟨⟨⟨"lines", .relation "line" .toMany, false⟩, "order"⟩, false⟩⟩ false
    (.compare numberedAmount)

/-- The orders of some total that are of another one or have a line of some amount. -/
def shared : Filter :=
  .junction "order" .and (.compare numberedNext)
    (.junction "order" .or (.compare numbered) someAmount)

/-- The disjunctive form says the first comparison twice. -/
def sharedTwice : Filter :=
  .junction "order" .or (.junction "order" .and (.compare numberedNext) (.compare numbered))
    (.junction "order" .and (.compare numberedNext) someAmount)

/-- The values of all three parameters. -/
def sharedValues : ValueSet :=
  ⟨shared, [⟨numberedNext, some (.int 3)⟩, ⟨numbered, some (.int 5)⟩,
    ⟨numberedAmount, some .null⟩], 0⟩

theorem arises_sharedValues {pool : Pool} {i : Instance} (h : Reached context pool [i])
    (hi : i.filter = shared) : sharedValues.Arises context := by
  have hinitial : (ValueSet.ofFilter i.filter).Arises context :=
    .initial h (List.mem_singleton_self i)
  rw [hi] at hinitial
  have hsupplied : (ValueSet.ofFilter shared).supplyAll [.int 3, .uint 5, .null] =
      .ok sharedValues := by
    decide +kernel
  exact .suppliedAll hinitial hsupplied

/-- The value of the parameter that is said twice is read twice. -/
theorem served_sharedTwice :
    ∃ pool i pool' j, sharedValues.Arises context ∧ Reached context pool [i] ∧
      i.filter = sharedValues.filter ∧
      (serve context (.normalForm .or i)).run pool = (.ok [j], pool') ∧
      j.filter = sharedTwice ∧
      sharedValues.valuesFor j.filter = .ok [.int 3, .int 5, .int 3, .null] := by
  obtain ⟨pool, i, hreached, hi⟩ := exists_reached (f := shared) (by decide +kernel)
  have hform : context.answer (.normalForm .or i.filter) = .ok [sharedTwice] := by
    rw [hi]
    decide +kernel
  obtain ⟨j, pool', hrun, hj, -⟩ :=
    hreached.serve_one (q := .normalForm .or i) (by simp [Query.arguments]) hform
  have harises := arises_sharedValues hreached hi
  have hwritten : Rewritten context sharedValues.filter true pool' [j, i] j :=
    .normalForm .or (.start hreached (List.mem_singleton_self i) hi) hrun
  obtain ⟨-, -, hfull, -⟩ := Rewritten.served harises hwritten
  obtain ⟨read, hread, hvalues⟩ := hfull rfl
  refine ⟨pool, i, pool', j, harises, hreached, hi, hrun, hj, ?_⟩
  have hslots : (sharedTwice.parameters.map fun l => (sharedValues.slot? l).bind Slot.value) =
      [Value.int 3, .int 5, .int 3, .null].map some := by
    decide +kernel
  rw [hj, hslots] at hvalues
  rw [hread, List.map_injective_iff.2 (Option.some_injective _) hvalues]

end Sample

end Pool

end RowFilter
