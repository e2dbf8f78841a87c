import RowFilter.Filter.Plan
import RowFilter.Proofs.ChainTexts
import RowFilter.Proofs.Operands
import RowFilter.Proofs.RoundTrip

/-!
# The lines of a plan

A plan has one line for each test and one over each run, and whatever stands in a run or inside a
test is further in. Where property names are formed as names are and there are no constants, the
words of a line have no blanks in them, so a line gives back how far in it is and its words, and a
text of lines gives back the lines.
-/

namespace RowFilter

open RowFilter.Grammar RowFilter.Text

/-! ## Lines -/

/-- How far a line is in. -/
def indent (line : String) : Nat :=
  (line.toList.takeWhile (· == ' ')).length

/-- A line is its text between blanks and a newline. -/
theorem toList_planLine (n : Nat) (text : String) :
    (planLine n text).toList = List.replicate (2 * n) ' ' ++ (text.toList ++ ['\n']) := by
  simp [planLine]

/-- How far in the text is can be seen from the line, if the text begins with no blank. -/
theorem indent_planLine (n : Nat) {text : String} (h : text.toList.head? ≠ some ' ') :
    indent (planLine n text) = 2 * n := by
  have hspaces : ∀ c ∈ List.replicate (2 * n) ' ', (c == ' ') = true := by
    intro c hc
    rw [List.eq_of_mem_replicate hc]
    rfl
  have hstop : (text.toList ++ ['\n']).takeWhile (· == ' ') = [] := by
    cases hchars : text.toList with
    | nil => rfl
    | cons c rest =>
      rw [hchars] at h
      apply List.takeWhile_cons_of_neg
      simpa using h
  rw [indent, toList_planLine, List.takeWhile_append_of_pos hspaces, hstop, List.append_nil,
    List.length_replicate]

/-- Lines that are equally far in have the texts they show. -/
theorem planLine_inj {n : Nat} {text text' : String} (h : planLine n text = planLine n text') :
    text = text' := by
  unfold planLine at h
  exact (String.append_right_inj _).1 ((String.append_left_inj _).1 h)

/-- The lines do not begin further in than at the level. -/
def BeginsBy (n : Nat) (lines : List String) : Prop :=
  ∀ line ∈ lines.head?, indent line ≤ 2 * n

/-- The text is one line with its end. -/
def IsLine (line : String) : Prop :=
  ∃ chars, '\n' ∉ chars ∧ line.toList = chars ++ ['\n']

/-- A text without newlines makes one line. -/
theorem isLine_planLine (n : Nat) {text : String} (h : '\n' ∉ text.toList) :
    IsLine (planLine n text) := by
  refine ⟨List.replicate (2 * n) ' ' ++ text.toList, ?_, ?_⟩
  · intro hmem
    rcases List.mem_append.1 hmem with hmem | hmem
    · exact absurd (List.eq_of_mem_replicate hmem) (by decide)
    · exact h hmem
  · rw [toList_planLine, List.append_assoc]

/-- What stands in front of the first end of a line, and what stands behind it, is determined. -/
theorem eq_of_append_newline {x y rest rest' : List Char} (hx : '\n' ∉ x) (hy : '\n' ∉ y)
    (h : x ++ '\n' :: rest = y ++ '\n' :: rest') : x = y ∧ rest = rest' := by
  have htake : ∀ {z more : List Char}, '\n' ∉ z →
      (z ++ '\n' :: more).takeWhile (· != '\n') = z := by
    intro z more hz
    have hall : ∀ c ∈ z, (c != '\n') = true := fun c hc => bne_iff_ne.2 fun heq => hz (heq ▸ hc)
    rw [List.takeWhile_append_of_pos hall, List.takeWhile_cons_of_neg (by simp), List.append_nil]
  have hsame : x = y := by
    rw [← htake hx, h, htake hy]
  rw [hsame] at h
  exact ⟨hsame, (List.cons.inj (List.append_cancel_left h)).2⟩

/-- Lines are known from the text that they make. -/
theorem lines_eq_of_join_eq {ls ks : List String} (hls : ∀ l ∈ ls, IsLine l)
    (hks : ∀ k ∈ ks, IsLine k) (h : String.join ls = String.join ks) : ls = ks := by
  have hchars : ls.flatMap String.toList = ks.flatMap String.toList := by
    rw [← String.toList_join, h, String.toList_join]
  clear h
  induction ls generalizing ks with
  | nil =>
    cases ks with
    | nil => rfl
    | cons k ks =>
      obtain ⟨y, -, hk⟩ := hks k List.mem_cons_self
      simp [hk] at hchars
  | cons l ls ih =>
    obtain ⟨x, hx, hl⟩ := hls l List.mem_cons_self
    cases ks with
    | nil => simp [hl] at hchars
    | cons k ks =>
      obtain ⟨y, hy, hk⟩ := hks k List.mem_cons_self
      rw [List.flatMap_cons, List.flatMap_cons, hl, hk, List.append_assoc, List.append_assoc]
        at hchars
      obtain ⟨rfl, hrest⟩ := eq_of_append_newline hx hy hchars
      rw [String.toList_inj.1 (hl.trans hk.symm), ih (fun a ha => hls a (List.mem_cons_of_mem l ha))
        (fun b hb => hks b (List.mem_cons_of_mem k hb)) hrest]

/-- Bound or not, a parameter is shown as one sign. -/
theorem Leaf.renderOperand_of_isParameter {l : Leaf} (h : l.operand.isParameter = true) :
    (l.renderOperand fun _ => none) = "?" := by
  obtain ⟨entity, shape, operand⟩ := l
  cases operand with
  | constant v => cases h
  | unbound | bound => rfl

namespace Filter

variable {f g : Filter} {schema : Schema}

/-! ## The line of a filter and the filters beneath -/

/-- The words of the line of the filter itself. -/
def headWords : Filter → List String
  | opened _ => ["OPEN"]
  | closed _ => ["CLOSED"]
  | compare l => [l.chain.render, l.shape.op.symbol, l.renderOperand fun _ => none]
  | existence _ c negated _ => (if negated then ["NOT"] else []) ++ ["EXISTS", c.render]
  | junction _ kind _ _ => [kind.heading]

/-- The line of the filter itself, without what is in front of it. -/
def headline (f : Filter) : String :=
  " ".intercalate f.headWords

/-- The filters whose lines are indented beneath the line of the filter. -/
def beneath : Filter → List Filter
  | existence _ _ _ sub => if sub.isOpen then [] else [sub]
  | f@(junction _ kind _ _) => f.runOf kind
  | _ => []

/-- What is shown beneath a filter is less deep. -/
theorem depth_lt_of_mem_beneath (h : g ∈ f.beneath) : g.depth < f.depth := by
  cases f with
  | opened | closed | compare => cases h
  | existence e c negated sub =>
    rw [beneath] at h
    split at h
    · cases h
    · rw [List.mem_singleton.1 h]
      exact Nat.lt_succ_self _
  | junction e kind l r =>
    rw [beneath, runOf_junction] at h
    exact depth_lt_of_mem_runOf h

/-- Induction from the filters beneath. -/
theorem beneath_induct {motive : Filter → Prop}
    (step : ∀ f : Filter, (∀ g ∈ f.beneath, motive g) → motive f) (f : Filter) : motive f :=
  step f fun g _ => beneath_induct step g
termination_by f.depth
decreasing_by exact depth_lt_of_mem_beneath ‹_›

/-- Inside a run of its kind a junction has the lines of its operands. -/
theorem planLines_run (kind : Junction) (n : Nat) (f : Filter) :
    f.planLines (some kind) n = (f.runOf kind).flatMap (planLines none n) := by
  induction f with
  | opened | closed | compare | existence => simp [planLines, runOf]
  | junction e k left right ihl ihr =>
    by_cases hk : k = kind
    · subst hk
      rw [runOf_junction, List.flatMap_append, ← ihl, ← ihr, planLines, if_pos rfl]
    · have hself : (junction e k left right).runOf kind = [junction e k left right] := if_neg hk
      rw [hself, List.flatMap_singleton, planLines, planLines, if_neg (by simpa using Ne.symm hk),
        if_neg (by simp)]

/-- The lines of a filter are its own and, one level further in, those of the filters beneath. -/
theorem planLines_eq (n : Nat) (f : Filter) :
    f.planLines none n =
      planLine n f.headline :: f.beneath.flatMap (planLines none (n + 1)) := by
  cases f with
  | opened | closed => rfl
  | compare l =>
    have htext : l.render = (compare l).headline := by
      simp [Leaf.render, Leaf.renderWith, headline, headWords, String.append_assoc]
    rw [planLines, htext]
    rfl
  | existence e c negated sub =>
    have htext : (if negated then "NOT " else "") ++ "EXISTS " ++ c.render =
        (existence e c negated sub).headline := by
      rw [← String.toList_inj]
      cases negated <;> simp [headline, headWords]
    rw [planLines, htext, beneath]
    split
    · rfl
    · rw [List.flatMap_singleton]
  | junction e kind l r =>
    rw [planLines, if_neg (by simp), planLines_run, planLines_run, beneath, runOf_junction,
      List.flatMap_append]
    rfl

/-! ## What a plan can show -/

/-- A filter as contexts build them, without constants. -/
structure Plannable (schema : Schema) (f : Filter) : Prop where
  inShape : f.InShape
  declared : f.DeclaredIn schema
  parametric : f.Parametric

theorem StandsIn.declaredIn (h : g.StandsIn f) (hf : f.DeclaredIn schema) :
    g.DeclaredIn schema := by
  induction h with
  | self => exact hf
  | left _ ih => exact ih hf.2.1
  | right _ ih => exact ih hf.2.2

theorem StandsIn.leaves_subset (h : g.StandsIn f) : g.leaves ⊆ f.leaves := by
  induction h with
  | self => exact List.Subset.refl _
  | left _ ih =>
    rw [leaves_junction]
    exact List.Subset.trans ih (List.subset_append_left _ _)
  | right _ ih =>
    rw [leaves_junction]
    exact List.Subset.trans ih (List.subset_append_right _ _)

/-- What is shown beneath a filter can be shown as the filter can. -/
theorem Plannable.beneath (h : f.Plannable schema) (hg : g ∈ f.beneath) : g.Plannable schema := by
  cases f with
  | opened | closed | compare => cases hg
  | existence e c negated sub =>
    rw [Filter.beneath] at hg
    split at hg
    · cases hg
    · obtain rfl := List.mem_singleton.1 hg
      exact ⟨h.inShape.2.2, h.declared.2.2, h.parametric⟩
  | junction e kind l r =>
    have hin : g.StandsIn (junction e kind l r) := (mem_runOf hg).1
    exact ⟨hin.inShape h.inShape, hin.declaredIn h.declared,
      fun l hl => h.parametric l (hin.leaves_subset hl)⟩

/-! ## The words of a line -/

/-- The words of a line are not broken by blanks. -/
theorem Plannable.unbroken_headWords (h : f.Plannable schema) (hnames : schema.WellNamed) :
    ∀ w ∈ f.headWords, Unbroken w := by
  have hchain : ∀ {c : Chain}, c.DeclaredIn schema → Unbroken c.render :=
    fun hc => Chain.unbroken_render (hc.scanned hnames)
  have hop : ∀ op : RelOp, Unbroken op.symbol := by
    intro op
    cases op <;> decide
  cases f with
  | opened | closed => exact List.forall_mem_singleton.2 (by decide)
  | compare l =>
    have hparam : (l.renderOperand fun _ => none) = "?" :=
      Leaf.renderOperand_of_isParameter (h.parametric l (by simp))
    rw [headWords, hparam]
    intro w hw
    simp only [List.mem_cons, List.not_mem_nil, or_false] at hw
    obtain rfl | rfl | rfl := hw
    · exact hchain h.declared.2
    · exact hop _
    · decide
  | existence e c negated sub =>
    intro w hw
    rcases List.mem_append.1 hw with hw | hw
    · cases negated with
      | false => cases hw
      | true =>
        rw [List.mem_singleton.1 hw]
        decide
    · simp only [List.mem_cons, List.not_mem_nil, or_false] at hw
      obtain rfl | rfl := hw
      · decide
      · exact hchain h.declared.2.1
  | junction e kind l r => cases kind <;> exact List.forall_mem_singleton.2 (by decide)

theorem headWords_ne_nil (f : Filter) : f.headWords ≠ [] := by
  cases f <;> simp [headWords]

/-- The line of a filter begins right behind what is in front of it. -/
theorem Plannable.head?_headline (h : f.Plannable schema) (hnames : schema.WellNamed) :
    f.headline.toList.head? ≠ some ' ' := by
  have hwords := h.unbroken_headWords hnames
  obtain ⟨w, ws, hhead⟩ := List.exists_cons_of_ne_nil f.headWords_ne_nil
  rw [hhead] at hwords
  have hw : Unbroken w := hwords w List.mem_cons_self
  rw [headline, hhead, head?_intercalate hw.1]
  intro hspace
  exact hw.notMem (by decide) (List.mem_of_mem_head? hspace)

/-- The line of a filter is one line, since names have no newlines. -/
theorem Plannable.newline_notMem_headline (h : f.Plannable schema) (hnames : schema.WellNamed) :
    '\n' ∉ f.headline.toList := by
  have hchars : ∀ c ∈ f.headline.toList, c ≠ '\n' := by
    refine forall_mem_intercalate (fun c hc => ?_) fun w hw c hc => ?_
    · rw [List.mem_singleton.1 hc]
      decide
    · rintro rfl
      exact (h.unbroken_headWords hnames w hw).notMem (by decide) hc
  exact fun hmem => hchars _ hmem rfl

/-- Lines that read alike are of filters that begin with the same words. -/
theorem Plannable.headWords_eq (hf : f.Plannable schema) (hg : g.Plannable schema)
    (hnames : schema.WellNamed) (h : f.headline = g.headline) : f.headWords = g.headWords := by
  have hwords : ∀ {k : Filter}, k.Plannable schema →
      ∀ w ∈ k.headWords, ' ' ∉ w.toList ∧ w ≠ "" := by
    intro k hk w hw
    have hunbroken : Unbroken w := hk.unbroken_headWords hnames w hw
    exact ⟨hunbroken.notMem (by decide), hunbroken.1⟩
  exact eq_of_intercalate_eq (hwords hf) (hwords hg) h

/-- No line of a plan is broken. -/
theorem Plannable.isLine_planLines (h : f.Plannable schema)
    (hnames : schema.WellNamed) (n : Nat) : ∀ line ∈ f.planLines none n, IsLine line := by
  induction f using beneath_induct generalizing n with
  | step f ih =>
    rw [planLines_eq]
    intro line hline
    rcases List.mem_cons.1 hline with rfl | hline
    · exact isLine_planLine n (h.newline_notMem_headline hnames)
    · obtain ⟨k, hk, hline⟩ := List.mem_flatMap.1 hline
      exact ih k hk (h.beneath hk) (n + 1) line hline

end Filter

end RowFilter
