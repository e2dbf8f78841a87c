import RowFilter.Proofs.Clauses
import RowFilter.Proofs.Complements

/-!
# Fixed points of the normal forms

A filter is in normal form if no outer junction stands beneath an inner one, existence tests being
atoms; that is what the test for it finds out. A rewrite always gives such a filter, and one whose
runs are all grouped to the left. Conversely the clauses of such a filter are its own operands, and
joining them gives it back: so rewriting a second time changes nothing, and the filters that
rewriting leaves alone are those with the shape and with no more clauses than are allowed.
-/

namespace RowFilter

theorem Junction.ne_dual (kind : Junction) : kind ≠ kind.dual := by
  cases kind <;> simp [dual]

namespace Filter

variable {e : String} {kind outer : Junction} {f g k l r : Filter} {fs c : List Filter}

/-! ## Shapes -/

theorem IsAtom.isFlat (hf : f.IsAtom) (kind : Junction) : f.isFlat kind = true := by
  cases f with
  | junction e kind l r => exact absurd rfl (hf e kind l r)
  | opened | closed | compare | existence => rfl

/-- No outer junction stands beneath one of the other kind. -/
def Layered (outer : Junction) (f : Filter) : Prop :=
  ∀ e l r, (junction e outer.dual l r).StandsIn f →
    ∀ e' l' r', ¬(junction e' outer l' r').StandsIn (junction e outer.dual l r)

/-- Every run of a junction is grouped to the left: no right operand is a junction of the same
kind. -/
def LeftDeep (f : Filter) : Prop :=
  ∀ e kind l r, (junction e kind l r).StandsIn f → ∀ e' l' r', r ≠ junction e' kind l' r'

/-- A junction is grouped to the left if its operands are and the right one is of another kind. -/
theorem leftDeep_junction :
    (junction e kind l r).LeftDeep ↔
      (∀ e' l' r', r ≠ junction e' kind l' r') ∧ l.LeftDeep ∧ r.LeftDeep := by
  constructor
  · intro h
    exact ⟨h _ _ _ _ .self, fun _ _ _ _ hin => h _ _ _ _ (.left hin),
      fun _ _ _ _ hin => h _ _ _ _ (.right hin)⟩
  · rintro ⟨hright, hl, hr⟩ e' kind' l' r' hin
    rcases standsIn_junction.1 hin with heq | hin | hin
    · cases heq
      exact hright
    · exact hl _ _ _ _ hin
    · exact hr _ _ _ _ hin

theorem IsAtom.leftDeep (hf : f.IsAtom) : f.LeftDeep := by
  intro e kind l r hin
  exact absurd (hf.standsIn_iff.1 hin).symm (hf e kind l r)

/-! ## What the test for a normal form finds out -/

/-- A flat filter has junctions of one kind only. -/
theorem isFlat_iff :
    f.isFlat kind = true ↔ ∀ e k l r, (junction e k l r).StandsIn f → k = kind := by
  induction f with
  | opened | closed | compare | existence =>
    refine iff_of_true rfl ?_
    intro e k l r hin
    cases hin
  | junction e k left right ihl ihr =>
    simp only [isFlat, Bool.and_eq_true, decide_eq_true_eq, ihl, ihr]
    constructor
    · rintro ⟨⟨hk, hl⟩, hr⟩ e' k' l' r' hin
      rcases standsIn_junction.1 hin with heq | hin | hin
      · cases heq
        exact hk
      · exact hl _ _ _ _ hin
      · exact hr _ _ _ _ hin
    · intro h
      exact ⟨⟨h _ _ _ _ .self, fun _ _ _ _ hin => h _ _ _ _ (.left hin)⟩,
        fun _ _ _ _ hin => h _ _ _ _ (.right hin)⟩

/-- Operands of an outer junction have to be normal. -/
theorem isNormal_outer (e : String) (outer : Junction) (l r : Filter) :
    (junction e outer l r).isNormal outer = (l.isNormal outer && r.isNormal outer) :=
  if_pos rfl

/-- Operands of an inner junction have to be without outer ones. -/
theorem isNormal_inner (e : String) (h : kind ≠ outer) (l r : Filter) :
    (junction e kind l r).isNormal outer = (junction e kind l r).isFlat outer.dual :=
  if_neg h

/-- The test for a normal form succeeds exactly if no outer junction stands beneath an inner
one. -/
theorem isNormal_iff_layered : f.isNormal outer = true ↔ f.Layered outer := by
  induction f with
  | opened | closed | compare | existence =>
    refine iff_of_true rfl ?_
    intro e l r hin
    cases hin
  | junction e k left right ihl ihr =>
    by_cases hk : k = outer
    · subst hk
      rw [isNormal_outer, Bool.and_eq_true, ihl, ihr]
      constructor
      · rintro ⟨hl, hr⟩ e' l' r' hin
        rcases standsIn_junction.1 hin with heq | hin | hin
        · cases k <;> cases heq
        · exact hl e' l' r' hin
        · exact hr e' l' r' hin
      · intro h
        exact ⟨fun _ _ _ hin => h _ _ _ (.left hin), fun _ _ _ hin => h _ _ _ (.right hin)⟩
    · have hdual : k = outer.dual := Junction.eq_dual_of_ne hk
      rw [isNormal_inner e hk, isFlat_iff]
      constructor
      · intro h e' l' r' hin e'' l'' r'' hbeneath
        -- whatever stands beneath stands in the whole, where all junctions are inner ones
        exact outer.ne_dual (h _ _ _ _ (hbeneath.trans hin))
      · intro h e' k' l' r' hin
        by_contra hne
        have houter : k' = outer := by
          rw [← outer.dual_dual]
          exact Junction.eq_dual_of_ne hne
        subst houter hdual
        exact h _ _ _ .self _ _ _ hin

/-- What has no outer junctions is normal as it stands. -/
theorem isNormal_of_isFlat (h : f.isFlat outer.dual = true) : f.isNormal outer = true := by
  rw [isNormal_iff_layered]
  intro e l r hin e' l' r' hbeneath
  exact outer.ne_dual (isFlat_iff.1 h _ _ _ _ (hbeneath.trans hin))

/-! ## Junctions grouped to the left -/

theorem isFlat_groupLeft (hfs : fs ≠ []) (h : ∀ f ∈ fs, f.isFlat kind = true) :
    (groupLeft e kind fs).isFlat kind = true := by
  revert h
  refine groupLeft_induct ?_ ?_ hfs
  · intro f h
    exact h f (List.mem_singleton_self f)
  · intro fs g ih h
    have hleft := ih fun f hf => h f (List.mem_append_left _ hf)
    have hright := h g (by simp)
    simp [isFlat, hleft, hright]

theorem isNormal_groupLeft (hfs : fs ≠ []) (h : ∀ f ∈ fs, f.isNormal outer = true) :
    (groupLeft e outer fs).isNormal outer = true := by
  revert h
  refine groupLeft_induct ?_ ?_ hfs
  · intro f h
    exact h f (List.mem_singleton_self f)
  · intro fs g ih h
    rw [isNormal_outer, Bool.and_eq_true]
    exact ⟨ih fun f hf => h f (List.mem_append_left _ hf), h g (by simp)⟩

/-- Filters that are no junctions of the kind make one that is grouped to the left. -/
theorem leftDeep_groupLeft (hfs : fs ≠ []) (hdeep : ∀ f ∈ fs, f.LeftDeep)
    (hother : ∀ f ∈ fs, ∀ e l r, f ≠ junction e kind l r) : (groupLeft e kind fs).LeftDeep := by
  revert hdeep hother
  refine groupLeft_induct ?_ ?_ hfs
  · intro f hdeep _
    exact hdeep f (List.mem_singleton_self f)
  · intro fs g ih hdeep hother
    have hg : g ∈ fs ++ [g] := by simp
    rw [leftDeep_junction]
    refine ⟨hother g hg, ih ?_ ?_, hdeep g hg⟩
    · intro f hf
      exact hdeep f (List.mem_append_left _ hf)
    · intro f hf
      exact hother f (List.mem_append_left _ hf)

/-- A run of atoms is one of them or a junction of its own kind. -/
theorem groupLeft_ne_junction (hfs : fs ≠ []) (hatoms : ∀ f ∈ fs, f.IsAtom) {e' : String}
    (hkind : outer ≠ kind) : groupLeft e kind fs ≠ junction e' outer l r := by
  revert hatoms
  refine groupLeft_induct ?_ ?_ hfs
  · intro f hatoms
    exact hatoms f (List.mem_singleton_self f) _ _ _ _
  · intro fs g _ _ heq
    cases heq
    exact hkind rfl

/-- The atoms of the operands are those of the junction, in order. -/
theorem atoms_groupLeft (hfs : fs ≠ []) :
    (groupLeft e kind fs).atoms = fs.flatMap atoms :=
  flatMap_groupLeft (fun _ _ => rfl) hfs

/-- The clauses of the operands are those of the outer junction, in order. -/
theorem expand_groupLeft (hfs : fs ≠ []) :
    (groupLeft e outer fs).expand outer = fs.flatMap (expand outer) :=
  flatMap_groupLeft (expand_outer e outer) hfs

/-- The atoms of a run of atoms are those it was made of. -/
theorem atoms_groupLeft_of_atoms (hc : c ≠ []) (hatoms : ∀ a ∈ c, a.IsAtom) :
    (groupLeft e kind c).atoms = c := by
  rw [atoms_groupLeft hc]
  exact flatMap_eq_self fun a ha => isAtom_iff.1 (hatoms a ha)

/-! ## The shape of normal forms -/

/-- A flat filter of the inner kind has one clause, its atoms. -/
theorem expand_of_isFlat (h : f.isFlat outer.dual = true) : f.expand outer = [f.atoms] := by
  induction f with
  | opened | closed | compare | existence => rfl
  | junction e k left right ihl ihr =>
    simp only [isFlat, Bool.and_eq_true, decide_eq_true_eq] at h
    obtain ⟨⟨rfl, hl⟩, hr⟩ := h
    rw [expand_inner e outer.ne_dual.symm, ihl hl, ihr hr]
    rfl

/-- Clauses consist of atoms. -/
theorem isAtom_of_mem_expand (hc : c ∈ f.expand outer) : ∀ a ∈ c, a.IsAtom :=
  fun a ha => isAtom_of_mem_atoms ((mem_expand hc).2 a ha)

theorem isFlat_clause (hc : c ∈ f.expand outer) :
    (groupLeft e kind c).isFlat kind = true :=
  isFlat_groupLeft (mem_expand hc).1 fun a ha => (isAtom_of_mem_expand hc a ha).isFlat kind

/-- There is always a clause. -/
theorem clauseFilters_ne_nil (outer : Junction) (f : Filter) : f.clauseFilters outer ≠ [] := by
  have hpos := f.clauseCount_pos outer
  rw [← length_clauseFilters] at hpos
  exact List.ne_nil_of_length_pos hpos

/-- The normal form is normal. -/
theorem isNormal_normalized (outer : Junction) (f : Filter) :
    (f.normalized outer).isNormal outer = true := by
  apply isNormal_groupLeft (f.clauseFilters_ne_nil outer)
  intro k hk
  obtain ⟨c, hc, rfl⟩ := List.mem_map.1 hk
  exact isNormal_of_isFlat (isFlat_clause hc)

/-- The normal form is grouped to the left throughout. -/
theorem leftDeep_normalized (outer : Junction) (f : Filter) : (f.normalized outer).LeftDeep := by
  apply leftDeep_groupLeft (f.clauseFilters_ne_nil outer)
  · intro k hk
    obtain ⟨c, hc, rfl⟩ := List.mem_map.1 hk
    have hatoms := isAtom_of_mem_expand hc
    apply leftDeep_groupLeft (mem_expand hc).1
    · intro a ha
      exact (hatoms a ha).leftDeep
    · intro a ha e l r
      exact hatoms a ha e _ l r
  · intro k hk e l r
    obtain ⟨c, hc, rfl⟩ := List.mem_map.1 hk
    exact groupLeft_ne_junction (mem_expand hc).1 (isAtom_of_mem_expand hc) outer.ne_dual

/-- The clauses of the normal form are the clauses. -/
theorem expand_normalized (outer : Junction) (f : Filter) :
    (f.normalized outer).expand outer = f.expand outer := by
  rw [normalized, expand_groupLeft (f.clauseFilters_ne_nil outer), clauseFilters, List.flatMap_map]
  apply flatMap_eq_self
  intro c hc
  rw [expand_of_isFlat (isFlat_clause hc),
    atoms_groupLeft_of_atoms (mem_expand hc).1 (isAtom_of_mem_expand hc)]

/-! ## What has the shape already -/

/-- What is flat, and no junction of the kind, is an atom. -/
theorem IsAtom.of_isFlat (h : f.isFlat kind = true)
    (hother : ∀ e l r, f ≠ junction e kind l r) : f.IsAtom := by
  rintro e k l r rfl
  have hk : k = kind := isFlat_iff.1 h e k l r .self
  subst hk
  exact hother e l r rfl

/-- A flat filter that is grouped to the left is the run of its atoms. -/
theorem InShape.groupLeft_atoms (hf : f.InShape) (hflat : f.isFlat kind = true)
    (hdeep : f.LeftDeep) : groupLeft f.entity kind f.atoms = f := by
  induction f with
  | opened | closed | compare | existence => rfl
  | junction e k left right ihl ihr =>
    simp only [isFlat, Bool.and_eq_true, decide_eq_true_eq] at hflat
    obtain ⟨⟨rfl, hl⟩, hr⟩ := hflat
    obtain ⟨⟨rfl, -, hlshape⟩, -⟩ := hf
    obtain ⟨hright, hldeep, -⟩ := leftDeep_junction.1 hdeep
    have hatom : right.IsAtom := .of_isFlat hr hright
    rw [atoms, isAtom_iff.1 hatom, entity, groupLeft_concat left.atoms_ne_nil,
      ihl hlshape hl hldeep]

/-- A flat filter that is grouped to the left is its own only clause. -/
theorem InShape.clauseFilters_of_isFlat (hf : f.InShape) (hflat : f.isFlat outer.dual = true)
    (hdeep : f.LeftDeep) : f.clauseFilters outer = [f] := by
  rw [clauseFilters, expand_of_isFlat hflat, List.map_singleton, hf.groupLeft_atoms hflat hdeep]

/-- What has the shape of a normal form is its own normal form. -/
theorem InShape.normalized_eq_self (hf : f.InShape) (hnormal : f.isNormal outer = true)
    (hdeep : f.LeftDeep) : f.normalized outer = f := by
  induction f with
  | opened | closed | compare | existence => rfl
  | junction e k left right ihl ihr =>
    by_cases hk : k = outer
    · subst hk
      rw [isNormal_outer, Bool.and_eq_true] at hnormal
      obtain ⟨hl, hr⟩ := hnormal
      obtain ⟨⟨rfl, -, hlshape⟩, hentity, -, hrshape⟩ := hf
      obtain ⟨hright, hldeep, hrdeep⟩ := leftDeep_junction.1 hdeep
      have hflat : right.isFlat k.dual = true := by
        cases right with
        | junction e' k' l' r' =>
          have hother : k' ≠ k := by
            rintro rfl
            exact hright e' l' r' rfl
          rwa [isNormal_inner e' hother] at hr
        | opened | closed | compare | existence => rfl
      -- the clauses are those of the left operand, and the right operand behind them
      have hclauses : (junction left.entity k left right).clauseFilters k =
          left.clauseFilters k ++ [right] := by
        rw [← hrshape.clauseFilters_of_isFlat hflat hrdeep]
        unfold clauseFilters
        rw [expand_outer, List.map_append, hentity]
        rfl
      rw [normalized, hclauses, groupLeft_concat (left.clauseFilters_ne_nil k)]
      exact congrArg (fun l => junction left.entity k l right) (ihl hlshape hl hldeep)
    · rw [isNormal_inner e hk] at hnormal
      rw [normalized, hf.clauseFilters_of_isFlat hnormal hdeep, groupLeft_singleton]

/-- The clauses of a filter in normal form are refused only if there are too many of them. -/
theorem clauseCount_le_of_clauses {limit : Nat} {cs : List (List Filter)} (hpos : 0 < limit)
    (hnormal : f.isNormal outer = true) (h : f.clauses outer limit = .ok cs) :
    f.clauseCount outer ≤ limit := by
  cases f with
  | opened | closed | compare | existence => exact hpos
  | junction e k left right =>
    by_cases hk : k = outer
    · obtain ⟨ls, hls, h⟩ := bind_eq_ok.1 h
      obtain ⟨rs, hrs, h⟩ := bind_eq_ok.1 h
      rw [if_pos hk] at h
      obtain ⟨⟨⟩, hcheck, -⟩ := bind_eq_ok.1 h
      rw [clauses_eq_ok hls, clauses_eq_ok hrs, length_expand, length_expand] at hcheck
      rw [clauseCount, if_pos hk]
      by_contra hmany
      rw [checkCount_of_lt (Nat.not_le.1 hmany)] at hcheck
      cases hcheck
    · rw [isNormal_inner e hk] at hnormal
      rw [← length_expand, expand_of_isFlat hnormal]
      exact hpos

end Filter

namespace Context

variable {ctx : Context} {outer : Junction} {f g : Filter}

/-- What a rewrite gives is the normal form, and that is not too deep. -/
theorem normalForm_eq_ok (hshape : f.InShape) (hdepth : f.depth ≤ ctx.config.maxDepth)
    (h : ctx.normalForm outer f = .ok g) :
    f.normalized outer = g ∧ g.depth ≤ ctx.config.maxDepth := by
  obtain ⟨fs, hsplit, -⟩ := bind_eq_ok.1 h
  obtain ⟨cs, hcs, -⟩ := bind_eq_ok.1 hsplit
  rw [normalForm_of_clauses hshape hdepth hcs] at h
  exact withinDepth_eq_ok.1 h

/-- A rewrite leaves exactly the filters in normal form alone that are grouped to the left and have
no more clauses than are allowed. -/
theorem normalForm_eq_self_iff (hshape : f.InShape) (hdepth : f.depth ≤ ctx.config.maxDepth) :
    ctx.normalForm outer f = .ok f ↔
      f.Layered outer ∧ f.LeftDeep ∧ f.clauseCount outer ≤ ctx.config.maxClauses := by
  constructor
  · intro h
    obtain ⟨hself, -⟩ := normalForm_eq_ok hshape hdepth h
    have hnormal : f.isNormal outer = true := hself ▸ f.isNormal_normalized outer
    have hdeep : f.LeftDeep := hself ▸ f.leftDeep_normalized outer
    obtain ⟨fs, hsplit, -⟩ := bind_eq_ok.1 h
    obtain ⟨cs, hcs, -⟩ := bind_eq_ok.1 hsplit
    exact ⟨Filter.isNormal_iff_layered.1 hnormal, hdeep,
      Filter.clauseCount_le_of_clauses ctx.config.maxClauses_pos hnormal hcs⟩
  · rintro ⟨hlayered, hdeep, hcount⟩
    have hself := hshape.normalized_eq_self (Filter.isNormal_iff_layered.2 hlayered) hdeep
    rw [normalForm_of_clauses hshape hdepth (Filter.clauses_of_le hcount), hself]
    exact withinDepth_of_le hdepth

/-- A normal form has no more clauses than are allowed. Where the limit is beyond what can be
counted the depth says so, for there is a level for each clause. -/
theorem clauseCount_le_of_normalForm (hshape : f.InShape) (hdepth : f.depth ≤ ctx.config.maxDepth)
    (hword : ctx.config.maxDepth < UInt64.size) (h : ctx.normalForm outer f = .ok g) :
    g.clauseCount outer ≤ ctx.config.maxClauses := by
  obtain ⟨rfl, hle⟩ := normalForm_eq_ok hshape hdepth h
  have hsame : (f.normalized outer).clauseCount outer = f.clauseCount outer := by
    rw [← Filter.length_expand, Filter.expand_normalized, Filter.length_expand]
  rw [hsame]
  by_contra hmany
  rcases Nat.lt_or_ge ctx.config.maxClauses clauseCountBound with hlimit | hlimit
  · rw [normalForm_eq hshape hdepth hlimit, Filter.checkCount_of_lt (Nat.not_le.1 hmany)] at h
    cases h
  · have hlevels : (f.clauseFilters outer).length ≤ (f.normalized outer).depth :=
      Filter.length_le_depth_groupLeft (f.clauseFilters_ne_nil outer)
    rw [Filter.length_clauseFilters] at hlevels
    unfold clauseCountBound at hlimit
    omega

end Context

/-! ## In a session -/

namespace Pool

variable {ctx : Context} {pool : Pool} {held : List Instance}

/-- Let the greatest depth be a word, as every depth is that can be configured. Then a normal form
that a session hands out has no outer junction beneath an inner one, passes the test for the normal
form, is grouped to the left, and is its own normal form however the session goes on. The test
finds out of every instance whether an outer junction stands beneath an inner one; and an instance
is its own normal form exactly if none does, it is grouped to the left, and its clauses are not too
many. -/
theorem Reached.normal_forms_settle (h : Reached ctx pool held) {i : Instance} (hi : i ∈ held)
    (hword : ctx.config.maxDepth < UInt64.size) (outer : Junction) :
    (∀ gs pool', (serve ctx (.normalForm outer i)).run pool = (.ok gs, pool') →
        ∃ g, gs = [g] ∧ g.filter.Layered outer ∧ g.filter.isNormal outer = true ∧
          g.filter.LeftDeep ∧ ∀ {pool₁ : Pool} {held₁ : List Instance},
            Leads ctx pool' (g :: held) pool₁ held₁ →
              ∃ pool₂, (serve ctx (.normalForm outer g)).run pool₁ = (.ok [g], pool₂)) ∧
      (i.filter.isNormal outer = true ↔ i.filter.Layered outer) ∧
      ((∃ pool', (serve ctx (.normalForm outer i)).run pool = (.ok [i], pool')) ↔
        i.filter.Layered outer ∧ i.filter.LeftDeep ∧
          i.filter.clauseCount outer ≤ ctx.config.maxClauses) := by
  have hargs : ∀ j ∈ (Query.normalForm outer i).arguments, j ∈ held := by
    simpa [Query.arguments] using hi
  have hfits := h.fits i hi
  refine ⟨?_, Filter.isNormal_iff_layered, ?_⟩
  · intro gs pool' hrun
    obtain ⟨g, rfl, hform, hreached⟩ := h.of_run_one hargs rfl hrun
    obtain ⟨hg, -⟩ := Context.normalForm_eq_ok hfits.inShape hfits.depth hform
    have hnormal : g.filter.isNormal outer = true := hg ▸ i.filter.isNormal_normalized outer
    have hlayered := Filter.isNormal_iff_layered.1 hnormal
    have hdeep : g.filter.LeftDeep := hg ▸ i.filter.leftDeep_normalized outer
    have hcount := Context.clauseCount_le_of_normalForm hfits.inShape hfits.depth hword hform
    refine ⟨g, rfl, hlayered, hnormal, hdeep, ?_⟩
    intro pool₁ held₁ hleads
    have hreached₁ := hleads.reached hreached
    have hmem : g ∈ held₁ := hleads.mem g List.mem_cons_self
    have hgfits := hreached₁.fits g hmem
    have hself : ctx.normalForm outer g.filter = .ok g.filter :=
      (Context.normalForm_eq_self_iff hgfits.inShape hgfits.depth).2 ⟨hlayered, hdeep, hcount⟩
    apply hreached₁.serve_held (by simpa [Query.arguments] using hmem) hmem
    exact bind_eq_ok.2 ⟨g.filter, hself, rfl⟩
  · rw [← Context.normalForm_eq_self_iff hfits.inShape hfits.depth]
    constructor
    · rintro ⟨pool', hrun⟩
      obtain ⟨g, hg, hform, -⟩ := h.of_run_one hargs rfl hrun
      rwa [← List.singleton_inj.1 hg] at hform
    · intro hform
      exact h.serve_held hargs hi (bind_eq_ok.2 ⟨i.filter, hform, rfl⟩)

namespace Sample

/-- The disjunctive form of the choice. -/
def disjunctiveChoice : Filter :=
  .junction "order" .or (.junction "order" .and (total .eq) (total .gt))
    (.junction "order" .and (total .eq) anyLine)

/-- The choice is no disjunctive form; its disjunctive form is, and is its own. -/
theorem normal_forms_settle_choice :
    ∃ pool i g pool' pool'', Reached context pool [i] ∧ i.filter = choice ∧
      context.config.maxDepth < UInt64.size ∧ ¬i.filter.Layered .or ∧
      (serve context (.normalForm .or i)).run pool = (.ok [g], pool') ∧
      g.filter.Layered .or ∧ g.filter.LeftDeep ∧
      (serve context (.normalForm .or g)).run pool' = (.ok [g], pool'') := by
  obtain ⟨pool, i, hreached, hi⟩ := exists_reached (f := choice) (by decide +kernel)
  have hmem : i ∈ [i] := List.mem_singleton_self i
  have hword : context.config.maxDepth < UInt64.size := by decide
  have hanswer : context.answer (.normalForm .or i.filter) = .ok [disjunctiveChoice] := by
    rw [hi]
    decide +kernel
  obtain ⟨g, pool', hrun, -, -⟩ :=
    hreached.serve_one (q := .normalForm .or i) (by simp [Query.arguments]) hanswer
  obtain ⟨hforms, htest, -⟩ := Reached.normal_forms_settle hreached hmem hword .or
  obtain ⟨g', hg, hlayered, -, hdeep, hagain⟩ := hforms _ _ hrun
  obtain rfl := List.singleton_inj.1 hg
  obtain ⟨pool'', hrun'⟩ := hagain .refl
  refine ⟨pool, i, g, pool', pool'', hreached, hi, hword, ?_, hrun, hlayered, hdeep, hrun'⟩
  rw [← htest, hi]
  decide

end Sample

end Pool

end RowFilter
