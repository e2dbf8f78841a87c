import RowFilter.Proofs.Evaluation
import RowFilter.Proofs.Meaning

/-!
# Reordering keeps the meaning

Reordering moves the operands of whole runs about and goes on inside existence tests, where it
puts other filters in place of the ones it finds. So the tests themselves change, and it is not
enough to take them for atoms: what has to be seen is that the filter inside holds at the same
rows as before, whatever rows the test asks about. Then the test finds what it found.
-/

namespace RowFilter

universe u

variable {Row : Type u} {I : Interpretation Row} {ctx : Context} {e : String} {kind : Junction}

/-- At each row the meaning of a filter is a function of what its atoms mean there. -/
theorem Filter.holds_eq_eval (I : Interpretation Row) (row : Row) (f : Filter) :
    f.holds I row = f.eval fun g => g.holds I row := by
  induction f with
  | opened | closed | compare | existence => rfl
  | junction e kind left right ihl ihr =>
    rw [eval, ← ihl, ← ihr]
    cases kind <;> rfl

/-- What filters join to holds where the junction of them does. -/
theorem holds_joinAll {fs : List Filter} {f : Filter} (h : ctx.joinAll e kind fs = .ok f)
    (row : Row) : f.holds I row = kind.holdsOf (fun g => g.holds I row) fs := by
  have heval : (fun g : Filter => g.holds I row) = Filter.eval fun g => g.holds I row := by
    funext g
    exact g.holds_eq_eval I row
  rw [f.holds_eq_eval I row, eval_joinAll h, ← heval]

/-- What reordering makes of an operand of a run holds, as operands of that run, where the operand
does. Outside of a run there is one reordered filter, and it does not matter which junction it is
taken for an operand of. -/
theorem holds_reordered {run : Option Junction} {f : Filter} {fs : List Filter}
    (h : ctx.reordered run f = .ok fs) (row : Row) :
    (run.getD .and).holdsOf (fun g => g.holds I row) fs = f.holds I row := by
  -- the filter inside a test must be known at all rows, so the row is generalised
  induction f generalizing run fs row with
  | opened | closed | compare =>
    have hfs := Except.ok.inj h
    rw [← hfs, Junction.holdsOf_singleton]
  | existence e' c negated sub ih =>
    rw [Context.reordered] at h
    obtain ⟨ss, hss, h⟩ := bind_eq_ok.1 h
    obtain ⟨sub', hsub', h⟩ := bind_eq_ok.1 h
    have hinside : sub'.holds I = sub.holds I := by
      funext row'
      rw [holds_joinAll hsub' row']
      exact ih hss row'
    split at h
    · have hfs := pure_eq_ok.1 h
      rw [← hfs, Junction.holdsOf_singleton]
    · obtain ⟨g, hg, h⟩ := bind_eq_ok.1 h
      obtain ⟨-, htest, -⟩ := existence_eq_ok.1 hg
      have hfs := pure_eq_ok.1 h
      rw [← hfs, Junction.holdsOf_singleton, ← htest]
      show (negated ^^ I.finds c row (sub'.holds I)) = (negated ^^ I.finds c row (sub.holds I))
      rw [hinside]
  | junction e' kind left right ihl ihr =>
    rw [Context.reordered] at h
    obtain ⟨ls, hls, h⟩ := bind_eq_ok.1 h
    obtain ⟨rs, hrs, h⟩ := bind_eq_ok.1 h
    have hrun : kind.holdsOf (fun g => g.holds I row) (ls ++ rs) =
        (Filter.junction e' kind left right).holds I row := by
      have hleft := ihl hls row
      have hright := ihr hrs row
      rw [Option.getD_some] at hleft hright
      rw [Junction.holdsOf_append, hleft, hright]
      cases kind <;> rfl
    split at h
    · next hsame =>
      -- inside a run of this junction the operands go on to the run
      have hfs := pure_eq_ok.1 h
      rw [← hfs, hsame, Option.getD_some]
      exact hrun
    · -- the run ends here: its operands are sorted, which changes their order only
      obtain ⟨g, hg, h⟩ := bind_eq_ok.1 h
      have hfs := pure_eq_ok.1 h
      have hsorted := kind.holdsOf_perm (p := fun k => k.holds I row)
        (cheapestFirst_perm Filter.cost (ls ++ rs))
      rw [← hfs, Junction.holdsOf_singleton, holds_joinAll hg row, hsorted]
      exact hrun

theorem holds_optimize {f g : Filter} (h : ctx.optimize f = .ok g) (row : Row) :
    g.holds I row = f.holds I row := by
  obtain ⟨fs, hfs, h⟩ := bind_eq_ok.1 h
  rw [holds_joinAll h row]
  exact holds_reordered hfs row

/-- Of two items the dearer one in front goes behind the other. -/
theorem cheapestFirst_pair {α : Type} {costOf : α → Cost} {a b : α}
    (h : (costOf a).le (costOf b) = false) : cheapestFirst costOf [a, b] = [b, a] := by
  simp [cheapestFirst, List.mergeSort, List.MergeSort.Internal.splitInTwo, h]

namespace Pool

variable {pool : Pool} {held : List Instance}

/-- Whatever comparisons say of rows, and however an existence test depends on the rows that meet
the filter inside, the reordered instance that a session hands out holds at the same rows. -/
theorem Reached.optimize_holds_alike (h : Reached ctx pool held) {i : Instance} (hi : i ∈ held)
    {gs : List Instance} {pool' : Pool}
    (hrun : (serve ctx (.optimize i)).run pool = (.ok gs, pool')) :
    ∃ g, gs = [g] ∧ ∀ {Row : Type u} (I : Interpretation Row) (row : Row),
      g.filter.holds I row = i.filter.holds I row := by
  have hargs : ∀ j ∈ (Query.optimize i).arguments, j ∈ held := by
    simpa [Query.arguments] using hi
  obtain ⟨g, rfl, hoptimize, -⟩ := h.of_run_one hargs rfl hrun
  refine ⟨g, rfl, ?_⟩
  intro Row I row
  exact holds_optimize hoptimize row

/-! ### A join inside -/

namespace Sample

/-- The comparison of the amount of a line with a parameter. -/
def amount : Filter :=
  .compare ⟨"line", ⟨⟨[], ⟨⟨⟨"amount", .scalar .int, true⟩, "line"⟩, false⟩⟩, .eq⟩, .unbound⟩

/-- The comparison of the total of the order of a line with a parameter. -/
def totalOfOrder : Filter :=
  .compare ⟨"line", ⟨⟨[⟨⟨⟨"order", .relation "order" .toOne, false⟩, "line"⟩, false⟩],
    ⟨⟨⟨"total", .scalar .int, false⟩, "order"⟩, false⟩⟩, .gt⟩, .unbound⟩

/-- The orders without a line that meets both comparisons, made in this order. -/
def withoutLine (first second : Filter) : Filter :=
  .existence "order" ⟨[], ⟨⟨⟨"lines", .relation "line" .toMany, false⟩, "order"⟩, false⟩⟩ true
    (.junction "line" .and first second)

theorem optimize_withoutLine :
    context.optimize (withoutLine totalOfOrder amount) = .ok (withoutLine amount totalOfOrder) := by
  have hsorted : cheapestFirst Filter.cost [totalOfOrder, amount] = [amount, totalOfOrder] :=
    cheapestFirst_pair (by decide)
  have hinside : context.reordered none (.junction "line" .and totalOfOrder amount) =
      .ok [.junction "line" .and amount totalOfOrder] := by
    show (do return [← context.joinAll "line" .and
      (cheapestFirst Filter.cost [totalOfOrder, amount])]) = _
    rw [hsorted]
    decide +kernel
  unfold Context.optimize withoutLine
  rw [Context.reordered, hinside]
  decide +kernel

/-- The comparison over the join is made last, inside the test. -/
theorem optimize_holds_alike_inside :
    ∃ pool i g pool', Reached context pool [i] ∧ i.filter = withoutLine totalOfOrder amount ∧
      (serve context (.optimize i)).run pool = (.ok [g], pool') ∧
      g.filter = withoutLine amount totalOfOrder ∧
      ∀ {Row : Type} (I : Interpretation Row) (row : Row),
        g.filter.holds I row = i.filter.holds I row := by
  obtain ⟨pool, i, hreached, hfilter⟩ :=
    exists_reached (f := withoutLine totalOfOrder amount) (by decide +kernel)
  have hanswer : context.answer (.optimize i.filter) = .ok [withoutLine amount totalOfOrder] := by
    rw [hfilter]
    exact bind_eq_ok.2 ⟨_, optimize_withoutLine, rfl⟩
  obtain ⟨g, pool', hrun, hg, -⟩ :=
    hreached.serve_one (q := .optimize i) (by simp [Query.arguments]) hanswer
  obtain ⟨g', hg', hholds⟩ :=
    Reached.optimize_holds_alike hreached (List.mem_singleton_self i) hrun
  rw [← List.singleton_inj.1 hg'] at hholds
  exact ⟨pool, i, g, pool', hreached, hfilter, hrun, hg, hholds⟩

end Sample

end Pool

end RowFilter
