import RowFilter.Proofs.Numbering
import RowFilter.Proofs.PlanLines

/-!
# Plans tell filters apart

A plan is read from the top: a line tells how its filter begins, the lines further in are those of
the filters beneath, and the first line that is not further in ends them. What a plan leaves out
is how the operands of a run are grouped and which numbers the parameters have; constants aside,
it leaves out nothing else.
-/

namespace RowFilter

/-! ## Runs as lists -/

/-- A filter in which a run is one junction of all its operands. -/
inductive RunTree where
  | opened (entity : String)
  | closed (entity : String)
  | compare (leaf : Leaf)
  | existence (entity : String) (chain : Chain) (negated : Bool) (sub : RunTree)
  | run (entity : String) (kind : Junction) (operands : List RunTree)

/-- Nothing is asked of a row. -/
def RunTree.isOpen : RunTree → Bool
  | opened _ => true
  | _ => false

/-- A plan does not show the number of a parameter. -/
theorem Leaf.renderOperand_unnumbered (l : Leaf) :
    (l.unnumbered.renderOperand fun _ => none) = l.renderOperand fun _ => none := by
  obtain ⟨entity, shape, operand⟩ := l
  cases operand <;> rfl

/-- Parameters of one shape differ in nothing but in their numbers. -/
theorem Leaf.unnumbered_eq {l l' : Leaf} (hentity : l.entity = l'.entity)
    (hchain : l.chain = l'.chain) (hop : l.shape.op = l'.shape.op)
    (h : l.operand.isParameter = true) (h' : l'.operand.isParameter = true) :
    l.unnumbered = l'.unnumbered := by
  have hshape : l.shape = l'.shape := by
    cases hl : l.shape
    cases hl' : l'.shape
    simp_all [chain]
  rw [unnumbered, unnumbered, Operand.unnumbered_of_isParameter h,
    Operand.unnumbered_of_isParameter h', hentity, hshape]

/-- The heading of a run tells which junction it is. -/
theorem Junction.heading_injective {k k' : Junction} (h : k.heading = k'.heading) : k = k' := by
  cases k <;> cases k' <;> first | rfl | exact absurd h (by decide)

namespace Filter

variable {e : String} {kind : Junction} {f g k l r : Filter} {schema : Schema}

/-- The filter with the operands of every maximal run in one list, from left to right, inside
existence tests too. -/
def flattened : Filter → RunTree
  | opened e => .opened e
  | closed e => .closed e
  | compare l => .compare l
  | existence e c negated sub => .existence e c negated sub.flattened
  | junction e kind left right =>
    .run e kind
      ((left.runOf kind ++ right.runOf kind).attach.map fun operand => operand.1.flattened)
termination_by f => f.depth
decreasing_by
  · exact Nat.lt_succ_self _
  · exact depth_lt_of_mem_runOf operand.2

/-- A run shows its operands side by side. -/
theorem flattened_junction (e : String) (kind : Junction) (l r : Filter) :
    (junction e kind l r).flattened =
      .run e kind (((junction e kind l r).runOf kind).map flattened) := by
  rw [flattened, runOf_junction, List.attach_map_val]

/-- The operands of a run without numbers are the operands without numbers. -/
theorem runOf_unnumbered (kind : Junction) (f : Filter) :
    f.unnumbered.runOf kind = (f.runOf kind).map unnumbered := by
  induction f with
  | opened | closed | compare | existence => rfl
  | junction e k left right ihl ihr =>
    rw [unnumbered, runOf, runOf]
    split
    · rw [ihl, ihr, List.map_append]
    · rfl

/-- The filter as far as a plan shows it: runs are lists, and parameters have no numbers. -/
def shown (f : Filter) : RunTree :=
  f.unnumbered.flattened

@[simp] theorem shown_opened (e : String) : (opened e).shown = .opened e := by
  rw [shown, unnumbered, flattened]

@[simp] theorem shown_closed (e : String) : (closed e).shown = .closed e := by
  rw [shown, unnumbered, flattened]

@[simp] theorem shown_compare (l : Leaf) : (compare l).shown = .compare l.unnumbered := by
  rw [shown, unnumbered, flattened]

@[simp] theorem shown_existence (e : String) (c : Chain) (negated : Bool) (sub : Filter) :
    (existence e c negated sub).shown = .existence e c negated sub.shown := by
  rw [shown, unnumbered, flattened]
  rfl

/-- A run shows what its operands do, in order. -/
@[simp] theorem shown_junction (e : String) (kind : Junction) (l r : Filter) :
    (junction e kind l r).shown = .run e kind (((junction e kind l r).runOf kind).map shown) := by
  have hrun := runOf_unnumbered kind (junction e kind l r)
  rw [unnumbered] at hrun
  rw [shown, unnumbered, flattened_junction, hrun, List.map_map]
  rfl

@[simp] theorem isOpen_shown (f : Filter) : f.shown.isOpen = f.isOpen := by
  cases f <;> simp [RunTree.isOpen, isOpen]

/-! ## Filters that begin alike -/

/-- The filters differ in nothing but in what is beneath them and in numbers of parameters. -/
inductive BeginsLike : Filter → Filter → Prop where
  | opened (e : String) : BeginsLike (opened e) (opened e)
  | closed (e : String) : BeginsLike (closed e) (closed e)
  | compare {l l' : Leaf} (h : l.unnumbered = l'.unnumbered) : BeginsLike (compare l) (compare l')
  | existence (e : String) (c : Chain) (negated : Bool) (sub sub' : Filter) :
    BeginsLike (existence e c negated sub) (existence e c negated sub')
  | junction (e : String) (kind : Junction) (l r l' r' : Filter) :
    BeginsLike (junction e kind l r) (junction e kind l' r')

/-- Filters that begin alike have the same words in their lines. -/
theorem BeginsLike.headWords_eq (h : f.BeginsLike g) : f.headWords = g.headWords := by
  cases h with
  | opened | closed | existence | junction => rfl
  | @compare l l' h =>
    have hshape : l.unnumbered.shape = l'.unnumbered.shape := congrArg Leaf.shape h
    have hoperand := l.renderOperand_unnumbered
    rw [h, l'.renderOperand_unnumbered] at hoperand
    change l.shape = l'.shape at hshape
    rw [headWords, headWords, Leaf.chain, Leaf.chain, hshape, hoperand]

/-- What is shown of a filter is how it begins and what is shown of the filters beneath. -/
theorem beginsLike_of_shown_eq (h : f.shown = g.shown) :
    f.BeginsLike g ∧ f.beneath.map shown = g.beneath.map shown := by
  cases f <;> cases g <;>
    simp only [shown_opened, shown_closed, shown_compare, shown_existence, shown_junction,
      reduceCtorEq, RunTree.opened.injEq, RunTree.closed.injEq, RunTree.compare.injEq,
      RunTree.existence.injEq, RunTree.run.injEq] at h
  case opened.opened =>
    rw [h]
    exact ⟨.opened _, rfl⟩
  case closed.closed =>
    rw [h]
    exact ⟨.closed _, rfl⟩
  case compare.compare => exact ⟨.compare h, rfl⟩
  case existence.existence sub _ _ _ sub' =>
    obtain ⟨rfl, rfl, rfl, hsub⟩ := h
    have hopen : sub.isOpen = sub'.isOpen := by
      rw [← isOpen_shown, hsub, isOpen_shown]
    refine ⟨.existence _ _ _ _ _, ?_⟩
    rw [beneath, beneath, hopen]
    split
    · rfl
    · rw [List.map_singleton, List.map_singleton, hsub]
  case junction.junction =>
    obtain ⟨rfl, rfl, hrun⟩ := h
    exact ⟨.junction _ _ _ _ _ _, hrun⟩

/-- Filters of which the same is shown have the same lines. -/
theorem planLines_eq_of_shown_eq (n : Nat) (h : f.shown = g.shown) :
    f.planLines none n = g.planLines none n := by
  induction f using beneath_induct generalizing g n with
  | step f ih =>
    obtain ⟨hbegins, hbeneath⟩ := beginsLike_of_shown_eq h
    have hlines : f.beneath.map (planLines none (n + 1)) = g.beneath.map (planLines none (n + 1)) :=
      map_eq_map_of_imp (fun a ha b _ hab => ih a ha (n + 1) hab) hbeneath
    rw [planLines_eq, planLines_eq n g, headline, headline, hbegins.headWords_eq,
      List.flatMap_def, List.flatMap_def, hlines]

/-- A chain leads to one entity only. -/
theorem entity_sub_eq {c : Chain} {negated negated' : Bool} {sub sub' : Filter} {e' : String}
    (h : (existence e c negated sub).InShape) (h' : (existence e' c negated' sub').InShape) :
    sub.entity = sub'.entity := by
  obtain ⟨⟨-, -, hkind⟩, -⟩ := h
  obtain ⟨⟨-, -, hkind'⟩, -⟩ := h'
  rw [hkind] at hkind'
  exact (PropertyKind.relation.inj hkind').1

/-- Filters that begin alike have filters over one entity beneath them. -/
theorem BeginsLike.entity_beneath (h : f.BeginsLike g) (hf : f.InShape) (hg : g.InShape) :
    ∀ a ∈ f.beneath, ∀ b ∈ g.beneath, a.entity = b.entity := by
  cases h with
  | opened | closed | compare => simp [Filter.beneath]
  | existence e c negated sub sub' =>
    intro a ha b hb
    rw [Filter.beneath] at ha hb
    split at ha
    · cases ha
    · split at hb
      · cases hb
      · rw [List.mem_singleton.1 ha, List.mem_singleton.1 hb]
        exact entity_sub_eq hf hg
  | junction e kind l r l' r' =>
    intro a ha b hb
    rw [(mem_runOf ha).1.entity_eq hf, (mem_runOf hb).1.entity_eq hg]
    rfl

/-- A test for any row has nothing beneath it, and no other test has. -/
theorem BeginsLike.shown_eq (h : f.BeginsLike g) (hf : f.InShape) (hg : g.InShape)
    (hbeneath : f.beneath.map shown = g.beneath.map shown) : f.shown = g.shown := by
  cases h with
  | opened | closed => rfl
  | compare h => rw [shown_compare, shown_compare, h]
  | existence e c negated sub sub' =>
    have hsub : sub.shown = sub'.shown := by
      rw [Filter.beneath, Filter.beneath] at hbeneath
      cases hopen : sub.isOpen <;> cases hopen' : sub'.isOpen <;>
        simp only [hopen, hopen', if_true, Bool.false_eq_true, if_false, List.map_cons,
          List.map_nil, reduceCtorEq] at hbeneath
      · exact List.singleton_inj.1 hbeneath
      · obtain ⟨t, rfl⟩ := eq_opened_of_isOpen hopen
        obtain ⟨t', rfl⟩ := eq_opened_of_isOpen hopen'
        obtain rfl : t = t' := entity_sub_eq hf hg
        rfl
    rw [shown_existence, shown_existence, hsub]
  | junction e kind l r l' r' =>
    rw [shown_junction, shown_junction]
    exact congrArg _ hbeneath

/-- Filters over one entity with the same words in their lines begin alike. -/
theorem Plannable.beginsLike (hf : f.Plannable schema) (hg : g.Plannable schema)
    (hnames : schema.WellNamed) (hentity : f.entity = g.entity) (h : f.headWords = g.headWords) :
    f.BeginsLike g := by
  have hheading : ∀ kind : Junction, kind.heading = "AND" ∨ kind.heading = "OR" := by
    intro kind
    cases kind
    · exact .inl rfl
    · exact .inr rfl
  have hop : ∀ op : RelOp, op.symbol ≠ "EXISTS" := by
    intro op
    cases op <;> decide
  cases f <;> cases g
  case opened.opened =>
    obtain rfl := hentity
    exact .opened _
  case closed.closed =>
    obtain rfl := hentity
    exact .closed _
  case compare.compare l l' =>
    have hentity : l.entity = l'.entity := hentity
    obtain ⟨hrender, hsymbol⟩ : l.chain.render = l'.chain.render ∧
        l.shape.op.symbol = l'.shape.op.symbol := by
      simp only [headWords, List.cons.injEq] at h
      exact ⟨h.1, h.2.1⟩
    have hroot : l.chain.root = l'.chain.root := by
      rw [hf.inShape.root, hg.inShape.root, hentity]
    have hchain : l.chain = l'.chain := Chain.eq_of_render_eq hnames hf.declared.2 hg.declared.2
      hf.inShape.connected hg.inShape.connected hroot hrender
    exact .compare (Leaf.unnumbered_eq hentity hchain (RelOp.symbol_injective hsymbol)
      (hf.parametric l (by simp)) (hg.parametric l' (by simp)))
  case existence.existence e c negated sub e' c' negated' sub' =>
    obtain rfl : e = e' := hentity
    obtain ⟨rfl, hrender⟩ : negated = negated' ∧ c.render = c'.render := by
      cases negated <;> cases negated' <;> simp_all [headWords]
    have hroot : c.root = c'.root := hf.inShape.1.1.trans hg.inShape.1.1.symm
    obtain rfl := Chain.eq_of_render_eq hnames hf.declared.2.1 hg.declared.2.1 hf.inShape.1.2.1
      hg.inShape.1.2.1 hroot hrender
    exact .existence _ _ _ _ _
  case junction.junction kind l r e' kind' l' r' =>
    obtain rfl := hentity
    obtain rfl : kind = kind' := Junction.heading_injective (List.singleton_inj.1 h)
    exact .junction _ _ _ _ _ _
  -- lines of different kinds differ in the number of their words, or in their first or second word
  all_goals grind [headWords]

/-! ## Reading lines back -/

/-- In front of lines that are not further in, the lines of the filter at the level are those of
filters alike only, and end where theirs do. -/
def Recovers (schema : Schema) (n : Nat) (f : Filter) : Prop :=
  ∀ {g : Filter} {rest rest' : List String}, g.Plannable schema → f.entity = g.entity →
    BeginsBy n rest → BeginsBy n rest' →
      f.planLines none n ++ rest = g.planLines none n ++ rest' → f.shown = g.shown ∧ rest = rest'

/-- Lines of filters at a level, and what follows them at a lesser one, do not begin further in. -/
theorem beginsBy_planLines {n : Nat} {fs : List Filter} {rest : List String}
    (hnames : schema.WellNamed) (hfs : ∀ f ∈ fs, f.Plannable schema) (hrest : BeginsBy n rest) :
    BeginsBy (n + 1) (fs.flatMap (planLines none (n + 1)) ++ rest) := by
  cases fs with
  | nil =>
    intro line hline
    have hle := hrest line hline
    omega
  | cons f fs =>
    have hf := (hfs f List.mem_cons_self).head?_headline hnames
    intro line hline
    rw [List.flatMap_cons, planLines_eq] at hline
    obtain rfl := Option.some.inj hline
    exact Nat.le_of_eq (indent_planLine _ hf)

/-- Lines of a filter are further in than what follows at a lesser level. -/
theorem planLines_ne_of_beginsBy {n : Nat} {f : Filter} {more rest : List String}
    (hnames : schema.WellNamed) (hf : f.Plannable schema) (hrest : BeginsBy n rest) :
    f.planLines none (n + 1) ++ more ≠ rest := by
  rintro rfl
  rw [planLines_eq] at hrest
  have hle := hrest _ rfl
  rw [indent_planLine _ (hf.head?_headline hnames)] at hle
  omega

/-- The lines of several filters are read one filter after the other. -/
theorem map_shown_eq_of_lines {n : Nat} {fs gs : List Filter} {rest rest' : List String}
    (hnames : schema.WellNamed) (hfs : ∀ f ∈ fs, f.Plannable schema ∧ f.Recovers schema (n + 1))
    (hgs : ∀ g ∈ gs, g.Plannable schema) (hentity : ∀ f ∈ fs, ∀ g ∈ gs, f.entity = g.entity)
    (hrest : BeginsBy n rest) (hrest' : BeginsBy n rest')
    (h : fs.flatMap (planLines none (n + 1)) ++ rest =
      gs.flatMap (planLines none (n + 1)) ++ rest') :
    fs.map shown = gs.map shown ∧ rest = rest' := by
  induction fs generalizing gs with
  | nil =>
    cases gs with
    | nil => exact ⟨rfl, h⟩
    | cons g gs =>
      rw [List.flatMap_cons, List.append_assoc] at h
      exact absurd h.symm (planLines_ne_of_beginsBy hnames (hgs g List.mem_cons_self) hrest)
  | cons f fs ih =>
    obtain ⟨hf, hrecovers⟩ := hfs f List.mem_cons_self
    cases gs with
    | nil =>
      rw [List.flatMap_cons, List.append_assoc] at h
      exact absurd h (planLines_ne_of_beginsBy hnames hf hrest')
    | cons g gs =>
      have hfs' := fun k hk => hfs k (List.mem_cons_of_mem f hk)
      have hgs' := fun k hk => hgs k (List.mem_cons_of_mem g hk)
      rw [List.flatMap_cons, List.flatMap_cons, List.append_assoc, List.append_assoc] at h
      obtain ⟨hshown, hmore⟩ := hrecovers (hgs g List.mem_cons_self)
        (hentity f List.mem_cons_self g List.mem_cons_self)
        (beginsBy_planLines hnames (fun k hk => (hfs' k hk).1) hrest)
        (beginsBy_planLines hnames hgs' hrest') h
      obtain ⟨hall, hrest⟩ := ih hfs' hgs'
        (fun a ha b hb => hentity a (List.mem_cons_of_mem f ha) b (List.mem_cons_of_mem g hb)) hmore
      rw [List.map_cons, List.map_cons, hshown, hall]
      exact ⟨rfl, hrest⟩

/-- A filter is recovered from its lines: the first gives how it begins, and those further in give
what is beneath it, by induction. -/
theorem Plannable.recovers (hnames : schema.WellNamed) (hf : f.Plannable schema) (n : Nat) :
    f.Recovers schema n := by
  induction f using beneath_induct generalizing n with
  | step f ih =>
    intro g rest rest' hg hentity hrest hrest' h
    rw [planLines_eq, planLines_eq n g, List.cons_append, List.cons_append] at h
    obtain ⟨hline, hlines⟩ := List.cons.inj h
    have hbegins : f.BeginsLike g := hf.beginsLike hg hnames hentity
      (hf.headWords_eq hg hnames (planLine_inj hline))
    obtain ⟨hbeneath, hsame⟩ := map_shown_eq_of_lines hnames
      (fun k hk => ⟨hf.beneath hk, ih k hk (hf.beneath hk) (n + 1)⟩) (fun k hk => hg.beneath hk)
      (hbegins.entity_beneath hf.inShape hg.inShape) hrest hrest' hlines
    exact ⟨hbegins.shown_eq hf.inShape hg.inShape hbeneath, hsame⟩

/-- Over one entity, filters have one plan exactly if the same is shown of them. -/
theorem Plannable.explain_eq_iff (hf : f.Plannable schema) (hg : g.Plannable schema)
    (hnames : schema.WellNamed) (hentity : f.entity = g.entity) :
    f.explain = g.explain ↔ f.shown = g.shown := by
  constructor
  · intro h
    have hlines : f.planLines none 0 = g.planLines none 0 :=
      lines_eq_of_join_eq (hf.isLine_planLines hnames 0) (hg.isLine_planLines hnames 0) h
    have hend : BeginsBy 0 [] := by simp [BeginsBy]
    exact (hf.recovers hnames 0 hg hentity hend hend (by rw [hlines])).1
  · intro h
    rw [explain, explain, planLines_eq_of_shown_eq 0 h]

end Filter

/-! ## In a session -/

namespace Pool

/-- Where property names are formed as names are, two instances over one entity and without
constants have one plan exactly if they are one filter but for the grouping of operands in runs
and for the numbers of parameters. They may come from different sessions. -/
theorem Reached.same_plan_iff {ctx : Context} {pool pool' : Pool} {held held' : List Instance}
    (h : Reached ctx pool held) (h' : Reached ctx pool' held') (hnames : ctx.schema.WellNamed)
    {i j : Instance} (hi : i ∈ held) (hj : j ∈ held') (hentity : i.node.entity = j.node.entity)
    (hiparametric : i.filter.Parametric) (hjparametric : j.filter.Parametric) :
    i.filter.explain = j.filter.explain ↔
      i.filter.unnumbered.flattened = j.filter.unnumbered.flattened := by
  have hplannable : ∀ {pool : Pool} {held : List Instance} {k : Instance},
      Reached ctx pool held → k ∈ held → k.filter.Parametric → k.filter.Plannable ctx.schema := by
    intro pool held k h hk hparametric
    obtain ⟨hfits, hdeclared⟩ := h.kept (declared_kept ctx) k hk
    exact ⟨hfits.inShape, hdeclared, hparametric⟩
  rw [entity_node, entity_node] at hentity
  exact (hplannable h hi hiparametric).explain_eq_iff (hplannable h' hj hjparametric) hnames hentity

namespace Sample

/-- The orders with a line, or of some total, or both of some total and without a line over more
than it: a run grouped to the right. -/
def groupedRight : Filter :=
  .junction "order" .or anyLine (.junction "order" .or (totalWith .unbound) filter)

/-- The same run grouped to the left, and one of its parameters with a number. -/
def groupedLeft : Filter :=
  .junction "order" .or (.junction "order" .or anyLine (totalWith (.bound 3))) filter

/-- The plan of both. -/
def plan : String :=
  "OR\n  EXISTS lines\n  total = ?\n  AND\n    total = ?\n    NOT EXISTS lines\n" ++
    "      (order).total > ?\n"

/-- Grouping and numbers do not show in the plan. -/
theorem same_plan_grouped :
    ∃ pool i j, Reached context pool [j, i] ∧ i.filter = groupedRight ∧ j.filter = groupedLeft ∧
      i.filter ≠ j.filter ∧ i.filter.explain = plan ∧ j.filter.explain = plan ∧
      i.filter.unnumbered.flattened = j.filter.unnumbered.flattened := by
  obtain ⟨pool, i, hreached, hi⟩ := exists_reached (f := groupedRight) (by decide +kernel)
  obtain ⟨j, pool', -, hj, hreached'⟩ :=
    hreached.serve_one (q := .rebuild groupedLeft.outline) (f := groupedLeft)
      (by simp [Query.arguments]) (by decide +kernel)
  have hnames : context.schema.WellNamed := Schema.Legible.wellNamed (by decide +kernel)
  have hplans : groupedRight.explain = plan ∧ groupedLeft.explain = plan := by decide +kernel
  have hentity : i.node.entity = j.node.entity := by
    rw [entity_node, entity_node, hi, hj]
    decide +kernel
  have hsame := Reached.same_plan_iff hreached' hreached' hnames
    (List.mem_cons_of_mem j List.mem_cons_self) List.mem_cons_self hentity
    (by rw [hi]; decide +kernel) (by rw [hj]; decide +kernel)
  rw [hi, hj] at hsame
  refine ⟨pool', i, j, hreached', hi, hj, ?_, ?_, ?_, ?_⟩
  · rw [hi, hj]
    decide +kernel
  · rw [hi]
    exact hplans.1
  · rw [hj]
    exact hplans.2
  · rw [hi, hj]
    exact hsame.1 (hplans.1.trans hplans.2.symm)

end Sample

end Pool

end RowFilter
