import RowFilter.Proofs.Sessions

/-!
# What filters mean

An interpretation says of every row which comparisons it meets and which rows an existence test
finds; the meaning of a filter follows node by node. Where comparisons are walked along relations
to at most one row, a row without a related row meets a comparison over an outer join and fails
one over an inner join. Under every such reading the complement holds exactly where the filter
does not.
-/

namespace RowFilter

universe u

/-- What leaves and existence tests say of rows. -/
structure Interpretation (Row : Type u) where
  /-- The row meets the comparison. -/
  meets : Leaf → Row → Bool
  /-- The row is led by the chain to what is asked for, given the rows that meet the filter
  inside. -/
  finds : Chain → Row → (Row → Bool) → Bool

/-- The filter holds at the row. -/
def Filter.holds {Row : Type u} (I : Interpretation Row) : Filter → Row → Bool
  | opened _, _ => true
  | closed _, _ => false
  | compare l, row => I.meets l row
  | existence _ c negated sub, row => negated ^^ I.finds c row (sub.holds I)
  | junction _ .and left right, row => left.holds I row && right.holds I row
  | junction _ .or left right, row => left.holds I row || right.holds I row

/-- Rows, the rows they are related to, and what is true of their values. -/
structure Rows (Row : Type u) where
  /-- The row that a relation to at most one row leads to, if there is one. -/
  related : Property → Row → Option Row
  /-- The value of the property compares so with the operand. -/
  compares : Property → RelOp → Operand → Row → Bool
  compares_dual : ∀ p op operand row, compares p op.dual operand row = !compares p op operand row
  finds : Chain → Row → (Row → Bool) → Bool

namespace Rows

variable {Row : Type u}

/-- The test at the end of the joins; where a related row is missing, the join says whether the
test counts as met. -/
def walk (rows : Rows Row) (test : Row → Bool) : List Hop → Row → Bool
  | [], row => test row
  | h :: rest, row =>
    match rows.related h.property row with
    | none => h.outer
    | some next => rows.walk test rest next

/-- Comparisons are made at the end of their joins. -/
def interpretation (rows : Rows Row) : Interpretation Row where
  meets l := rows.walk (rows.compares l.chain.final.property l.shape.op l.operand) l.chain.joins
  finds := rows.finds

/-- With every join flipped and the opposite test at the end, the walk ends oppositely. -/
theorem walk_flip (rows : Rows Row) {test test' : Row → Bool} (h : ∀ row, test' row = !test row)
    (joins : List Hop) (row : Row) :
    rows.walk test' (joins.map Hop.flip) row = !rows.walk test joins row := by
  induction joins generalizing row with
  | nil => exact h row
  | cons hop rest ih =>
    simp only [List.map_cons, walk, Hop.flip_property]
    -- a missing row decides by the mark, which is flipped; else the walk goes on
    cases rows.related hop.property row with
    | none => exact Hop.flip_outer hop
    | some next => exact ih next

theorem meets_complement (rows : Rows Row) (l : Leaf) (row : Row) :
    rows.interpretation.meets l.complement row = !rows.interpretation.meets l row :=
  rows.walk_flip (fun row => rows.compares_dual _ _ _ row) l.chain.joins row

end Rows

/-- Where leaves are met oppositely by their complements, so are filters. -/
theorem Filter.holds_complement {Row : Type u} {I : Interpretation Row}
    (hleaf : ∀ l row, I.meets l.complement row = !I.meets l row) (f : Filter) (row : Row) :
    f.complement.holds I row = !f.holds I row := by
  induction f generalizing row with
  | opened | closed => rfl
  | compare l => exact hleaf l row
  | existence e c negated sub =>
    -- the filter inside is kept, so both find alike, and only the sign differs
    simp only [complement, holds, Bool.not_xor]
  | junction e kind left right ihl ihr =>
    cases kind with
    | and => simp only [complement, Junction.dual, holds, ihl, ihr, Bool.not_and]
    | or => simp only [complement, Junction.dual, holds, ihl, ihr, Bool.not_or]

namespace Pool

variable {ctx : Context} {pool : Pool} {held : List Instance}

/-- Over any rows, the complement that a session hands out holds exactly where the filter does
not. -/
theorem Reached.complement_negates (h : Reached ctx pool held) {i : Instance} (hi : i ∈ held) :
    ∃ c pool', (serve ctx (.complement i)).run pool = (.ok [c], pool') ∧
      ∀ {Row : Type u} (rows : Rows Row) (row : Row),
        c.filter.holds rows.interpretation row = !i.filter.holds rows.interpretation row := by
  obtain ⟨c, pool', hrun, hc, -⟩ := h.serve_complement hi
  refine ⟨c, pool', hrun, fun rows row => ?_⟩
  rw [hc]
  exact Filter.holds_complement rows.meets_complement i.filter row

theorem Sample.complement_negates_given :
    ∃ i c pool', Sample.given = [i] ∧ i.filter = Sample.filter ∧
      (serve Sample.context (.complement i)).run Sample.after = (.ok [c], pool') ∧
      ∀ {Row : Type} (rows : Rows Row) (row : Row),
        c.filter.holds rows.interpretation row = !i.filter.holds rows.interpretation row := by
  obtain ⟨i, hgiven, hi, hfilter⟩ := Sample.exists_given
  obtain ⟨c, pool', hrun, hnegates⟩ := Reached.complement_negates Sample.reached hi
  exact ⟨i, c, pool', hgiven, hfilter, hrun, hnegates⟩

end Pool

end RowFilter
