import RowFilter.Proofs.NormalForms

/-!
# Clauses as ways through a filter

To meet a filter is to choose: at every alternative that is reached one branch, at every
conjunction both. The clauses of the disjunctive form say in turn which atoms each such choice
leads to, and for the conjunctive form the two junctions change places. Nothing is left out and
nothing stands twice: the clauses are all ways through the filter, in the order in which the
choices compare from left to right, and each lists the atoms in the order of the filter.

Atoms are told apart by their places, so that equal atoms do not count as one.
-/

namespace RowFilter

/-! ## Ways -/

/-- A branch of a junction. -/
inductive Side where
  | left
  | right
deriving DecidableEq, Repr

/-- A way through a filter: the branches chosen, in the order in which one comes to choose, and the
places of the atoms that are reached among all atoms of the filter. -/
structure Way where
  sides : List Side
  places : List Nat
deriving DecidableEq, Repr

namespace Way

/-- The way after one more choice in front. -/
def turn (side : Side) (w : Way) : Way :=
  ⟨side :: w.sides, w.places⟩

/-- The way behind a number of other atoms. -/
def behind (count : Nat) (w : Way) : Way :=
  ⟨w.sides, w.places.map (count + ·)⟩

/-- The one way and then the other. -/
def both (v w : Way) : Way :=
  ⟨v.sides ++ w.sides, v.places ++ w.places⟩

/-- Where the ways part for the first time, the one goes left and the other right. -/
def Precedes (v w : Way) : Prop :=
  ∃ common vs ws, v.sides = common ++ .left :: vs ∧ w.sides = common ++ .right :: ws

/-- The atoms at the places of the way. -/
def atomsOf (atoms : List Filter) (w : Way) : List (Option Filter) :=
  w.places.map fun place => atoms[place]?

variable {v w v' w' : Way}

/-- The same turn in front leaves the order of two ways. -/
theorem Precedes.turn (h : v.Precedes w) (side : Side) : (v.turn side).Precedes (w.turn side) := by
  obtain ⟨common, vs, ws, hv, hw⟩ := h
  refine ⟨side :: common, vs, ws, ?_, ?_⟩
  · rw [Way.turn, hv, List.cons_append]
  · rw [Way.turn, hw, List.cons_append]

theorem Precedes.behind (h : v.Precedes w) (count : Nat) :
    (v.behind count).Precedes (w.behind count) :=
  h

/-- A choice that differs earlier decides. -/
theorem Precedes.both (h : v.Precedes w) (v' w' : Way) : (v.both v').Precedes (w.both w') := by
  obtain ⟨common, vs, ws, hv, hw⟩ := h
  refine ⟨common, vs ++ v'.sides, ws ++ w'.sides, ?_, ?_⟩
  · rw [Way.both, hv, List.append_assoc, List.cons_append]
  · rw [Way.both, hw, List.append_assoc, List.cons_append]

/-- After the same choices the later ones decide. -/
theorem Precedes.both_right (h : v.Precedes w) (u : Way) : (u.both v).Precedes (u.both w) := by
  obtain ⟨common, vs, ws, hv, hw⟩ := h
  refine ⟨u.sides ++ common, vs, ws, ?_, ?_⟩
  · rw [Way.both, hv, List.append_assoc]
  · rw [Way.both, hw, List.append_assoc]

/-- What turns left comes before what turns right. -/
theorem turn_precedes (v w : Way) : (v.turn .left).Precedes (w.turn .right) :=
  ⟨[], v.sides, w.sides, rfl, rfl⟩

/-- A way through the left operand does not see the atoms of the right one. -/
theorem atomsOf_append_left {as bs : List Filter}
    (h : ∀ place ∈ w.places, place < as.length) :
    w.atomsOf (as ++ bs) = w.atomsOf as :=
  List.map_congr_left fun place hplace => List.getElem?_append_left (h place hplace)

/-- A way through the right operand passes the atoms of the left one. -/
theorem atomsOf_behind (as bs : List Filter) (w : Way) :
    (w.behind as.length).atomsOf (as ++ bs) = w.atomsOf bs := by
  unfold atomsOf behind
  rw [List.map_map]
  apply List.map_congr_left
  intro place _
  show (as ++ bs)[as.length + place]? = _
  rw [List.getElem?_append_right (by omega), Nat.add_sub_cancel_left]

/-- Two ways together have the atoms of both. -/
theorem atomsOf_both (as : List Filter) (v w : Way) :
    (v.both w).atomsOf as = v.atomsOf as ++ w.atomsOf as :=
  List.map_append

end Way

namespace Filter

variable {e : String} {kind outer : Junction} {f : Filter} {v w : Way}

/-- One branch of every outer junction that is reached, both operands of every inner one, and the
atom where there is no junction. -/
inductive Offers (outer : Junction) : Filter → Way → Prop where
  | atom {f : Filter} (hf : f.IsAtom) : Offers outer f ⟨[], [0]⟩
  | left {e : String} {left right : Filter} {w : Way} (h : Offers outer left w) :
    Offers outer (junction e outer left right) (w.turn .left)
  | right {e : String} {left right : Filter} {w : Way} (h : Offers outer right w) :
    Offers outer (junction e outer left right) ((w.behind left.atoms.length).turn .right)
  | both {e : String} {kind : Junction} {left right : Filter} {v w : Way} (hkind : kind ≠ outer)
    (hleft : Offers outer left v) (hright : Offers outer right w) :
    Offers outer (junction e kind left right) (v.both (w.behind left.atoms.length))

/-- All ways through the filter, the leftmost first. -/
def ways (outer : Junction) : Filter → List Way
  | junction _ kind left right =>
    if kind = outer then
      (left.ways outer).map (Way.turn .left) ++
        (right.ways outer).map fun w => (w.behind left.atoms.length).turn .right
    else
      (left.ways outer).flatMap fun v =>
        (right.ways outer).map fun w => v.both (w.behind left.atoms.length)
  | _ => [⟨[], [0]⟩]

/-- A way through an outer junction is one through either operand. -/
theorem ways_outer (e : String) (outer : Junction) (left right : Filter) :
    (junction e outer left right).ways outer =
      (left.ways outer).map (Way.turn .left) ++
        (right.ways outer).map fun w => (w.behind left.atoms.length).turn .right :=
  if_pos rfl

/-- A way through an inner junction is one through both. -/
theorem ways_inner (e : String) (h : kind ≠ outer) (left right : Filter) :
    (junction e kind left right).ways outer =
      (left.ways outer).flatMap fun v =>
        (right.ways outer).map fun w => v.both (w.behind left.atoms.length) :=
  if_neg h

theorem IsAtom.ways_eq (hf : f.IsAtom) (outer : Junction) : f.ways outer = [⟨[], [0]⟩] := by
  cases f with
  | junction e kind l r => exact absurd rfl (hf e kind l r)
  | opened | closed | compare | existence => rfl

/-- What is listed is a way; by induction on the filter. -/
theorem offers_of_mem_ways (h : w ∈ f.ways outer) : f.Offers outer w := by
  induction f generalizing w with
  | opened | closed | compare | existence =>
    rw [List.mem_singleton.1 h]
    exact .atom (isAtom_iff.2 rfl)
  | junction e kind left right ihl ihr =>
    by_cases hkind : kind = outer
    · subst hkind
      rw [ways_outer] at h
      rcases List.mem_append.1 h with h | h
      · obtain ⟨w, hw, rfl⟩ := List.mem_map.1 h
        exact .left (ihl hw)
      · obtain ⟨w, hw, rfl⟩ := List.mem_map.1 h
        exact .right (ihr hw)
    · rw [ways_inner e hkind] at h
      obtain ⟨v, hv, h⟩ := List.mem_flatMap.1 h
      obtain ⟨w, hw, rfl⟩ := List.mem_map.1 h
      exact .both hkind (ihl hv) (ihr hw)

/-- Every way is listed; by induction on how the filter offers it. -/
theorem mem_ways_of_offers (h : f.Offers outer w) : w ∈ f.ways outer := by
  induction h with
  | atom hf =>
    rw [hf.ways_eq]
    exact List.mem_singleton_self _
  | left _ ih =>
    rw [ways_outer]
    exact List.mem_append_left _ (List.mem_map_of_mem ih)
  | right _ ih =>
    rw [ways_outer]
    exact List.mem_append_right _ (List.mem_map.2 ⟨_, ih, rfl⟩)
  | both hkind _ _ ihl ihr =>
    rw [ways_inner _ hkind]
    exact List.mem_flatMap.2 ⟨_, ihl, List.mem_map.2 ⟨_, ihr, rfl⟩⟩

/-- The ways are listed in their order. -/
theorem pairwise_ways (outer : Junction) (f : Filter) :
    (f.ways outer).Pairwise Way.Precedes := by
  induction f with
  | opened | closed | compare | existence => exact List.pairwise_singleton _ _
  | junction e kind left right ihl ihr =>
    by_cases hkind : kind = outer
    · subst hkind
      rw [ways_outer, List.pairwise_append, List.pairwise_map, List.pairwise_map]
      refine ⟨ihl.imp fun h => h.turn _, ihr.imp fun h => (h.behind _).turn _, ?_⟩
      intro v hv w hw
      obtain ⟨v, -, rfl⟩ := List.mem_map.1 hv
      obtain ⟨w, -, rfl⟩ := List.mem_map.1 hw
      exact v.turn_precedes _
    · -- the choices in the left operand come first, so those in the right one decide only where
      -- the others agree
      rw [ways_inner e hkind, List.pairwise_flatMap]
      constructor
      · intro v _
        rw [List.pairwise_map]
        exact ihr.imp fun h => (h.behind _).both_right v
      · refine ihl.imp ?_
        intro v v' h w hw w' hw'
        obtain ⟨w, -, rfl⟩ := List.mem_map.1 hw
        obtain ⟨w', -, rfl⟩ := List.mem_map.1 hw'
        exact h.both _ _

/-- A way goes from left to right and stays in the filter. -/
theorem Offers.places (h : f.Offers outer w) :
    w.places.Pairwise (· < ·) ∧ ∀ place ∈ w.places, place < f.atoms.length := by
  induction h with
  | atom hf =>
    rw [isAtom_iff.1 hf]
    simp
  | left _ ih =>
    obtain ⟨hascending, hbound⟩ := ih
    refine ⟨hascending, ?_⟩
    intro place hplace
    have hlt := hbound place hplace
    rw [atoms, List.length_append]
    omega
  | right _ ih =>
    obtain ⟨hascending, hbound⟩ := ih
    refine ⟨List.pairwise_map.2 (hascending.imp fun hlt => Nat.add_lt_add_left hlt _), ?_⟩
    intro place hplace
    obtain ⟨inner, hinner, rfl⟩ := List.mem_map.1 hplace
    have hlt := hbound inner hinner
    rw [atoms, List.length_append]
    omega
  | @both e kind left right v w _ _ _ ihl ihr =>
    obtain ⟨hlascending, hlbound⟩ := ihl
    obtain ⟨hrascending, hrbound⟩ := ihr
    constructor
    · refine List.pairwise_append.2 ⟨hlascending, ?_, ?_⟩
      · exact List.pairwise_map.2 (hrascending.imp fun hlt => Nat.add_lt_add_left hlt _)
      · intro place hplace place' hplace'
        obtain ⟨inner, -, rfl⟩ := List.mem_map.1 hplace'
        have hlt := hlbound place hplace
        omega
    · intro place hplace
      rw [atoms, List.length_append]
      rcases List.mem_append.1 hplace with hplace | hplace
      · have hlt := hlbound place hplace
        omega
      · obtain ⟨inner, hinner, rfl⟩ := List.mem_map.1 hplace
        have hlt := hrbound inner hinner
        omega

/-- Every filter offers a way. -/
theorem exists_offers (outer : Junction) (f : Filter) : ∃ w, f.Offers outer w := by
  induction f with
  | opened | closed | compare | existence =>
    exact ⟨_, .atom (isAtom_iff.2 rfl)⟩
  | junction e kind left right ihl ihr =>
    obtain ⟨v, hv⟩ := ihl
    obtain ⟨w, hw⟩ := ihr
    by_cases hkind : kind = outer
    · subst hkind
      exact ⟨_, .left hv⟩
    · exact ⟨_, .both hkind hv hw⟩

/-- Some way leads to each atom. -/
theorem exists_offers_place {place : Nat} (h : place < f.atoms.length) :
    ∃ w, f.Offers outer w ∧ place ∈ w.places := by
  induction f generalizing place with
  | opened | closed | compare | existence =>
    exact ⟨_, .atom (isAtom_iff.2 rfl), List.mem_singleton.2 (Nat.lt_one_iff.1 h)⟩
  | junction e kind left right ihl ihr =>
    -- at an inner junction the way goes through both operands, however it goes through the other
    obtain ⟨v₀, hv₀⟩ := left.exists_offers outer
    obtain ⟨w₀, hw₀⟩ := right.exists_offers outer
    rw [atoms, List.length_append] at h
    by_cases hplace : place < left.atoms.length
    · obtain ⟨v, hv, hmem⟩ := ihl hplace
      by_cases hkind : kind = outer
      · subst hkind
        exact ⟨_, .left hv, hmem⟩
      · exact ⟨_, .both hkind hv hw₀, List.mem_append_left _ hmem⟩
    · have hright : place - left.atoms.length < right.atoms.length := by omega
      obtain ⟨w, hw, hmem⟩ := ihr hright
      have hmem' : place ∈ (w.behind left.atoms.length).places :=
        List.mem_map.2 ⟨_, hmem, by omega⟩
      by_cases hkind : kind = outer
      · subst hkind
        exact ⟨_, .right hw, hmem'⟩
      · exact ⟨_, .both hkind hv₀ hw, List.mem_append_right _ hmem'⟩

/-! ## The clauses say the ways -/

/-- The clauses are the atoms along the ways, way by way. -/
theorem map_expand (outer : Junction) (f : Filter) :
    (f.expand outer).map (List.map some) = (f.ways outer).map (Way.atomsOf f.atoms) := by
  induction f with
  | opened | closed | compare | existence => rfl
  | junction e kind left right ihl ihr =>
    have hleft : ∀ v ∈ left.ways outer,
        v.atomsOf (left.atoms ++ right.atoms) = v.atomsOf left.atoms :=
      fun v hv => Way.atomsOf_append_left (offers_of_mem_ways hv).places.2
    rw [atoms]
    by_cases hkind : kind = outer
    · subst hkind
      rw [expand_outer, ways_outer, List.map_append, ihl, ihr, List.map_append, List.map_map,
        List.map_map]
      congr 1
      · exact (List.map_congr_left hleft).symm
      · exact List.map_congr_left fun w _ => (Way.atomsOf_behind left.atoms right.atoms w).symm
    · rw [expand_inner e hkind, ways_inner e hkind, map_distribute, ihl, ihr, distribute,
        List.flatMap_map, List.map_flatMap]
      apply List.flatMap_congr
      intro v hv
      rw [List.map_map, List.map_map]
      apply List.map_congr_left
      intro w _
      show _ = (v.both (w.behind left.atoms.length)).atomsOf (left.atoms ++ right.atoms)
      rw [Way.atomsOf_both, hleft v hv, Way.atomsOf_behind]
      rfl

/-- The ways are all that the filter offers, the leftmost first, each from left to right, and
together they lead to every atom. -/
structure ListsWays (outer : Junction) (f : Filter) (ways : List Way) : Prop where
  mem_iff : ∀ w, w ∈ ways ↔ f.Offers outer w
  ordered : ways.Pairwise Way.Precedes
  ascending : ∀ w ∈ ways, w.places.Pairwise (· < ·)
  covering : ∀ place < f.atoms.length, ∃ w ∈ ways, place ∈ w.places

/-- The list has all ways and no others, each once and in order. -/
theorem listsWays_ways (outer : Junction) (f : Filter) : f.ListsWays outer (f.ways outer) where
  mem_iff _ := ⟨offers_of_mem_ways, mem_ways_of_offers⟩
  ordered := f.pairwise_ways outer
  ascending _ hw := (offers_of_mem_ways hw).places.1
  covering _ hplace := by
    obtain ⟨w, hw, hmem⟩ := exists_offers_place hplace
    exact ⟨w, mem_ways_of_offers hw, hmem⟩

/-- Read as lists of atoms, the clauses are as they were put together. -/
theorem map_atoms_clauseFilters (outer : Junction) (f : Filter) :
    (f.clauseFilters outer).map atoms = f.expand outer := by
  rw [clauseFilters, List.map_map]
  have hself : ∀ c ∈ f.expand outer, (atoms ∘ groupLeft f.entity outer.dual) c = c :=
    fun c hc => atoms_groupLeft_of_atoms (mem_expand hc).1 (isAtom_of_mem_expand hc)
  rw [List.map_congr_left hself, List.map_id']

/-- No outer junction stands in a clause. -/
theorem not_standsIn_clause {k : Filter} (hk : k ∈ f.clauseFilters outer) (e : String)
    (l r : Filter) : ¬(junction e outer l r).StandsIn k := by
  obtain ⟨c, hc, rfl⟩ := List.mem_map.1 hk
  intro hin
  exact outer.ne_dual (isFlat_iff.1 (isFlat_clause hc) _ _ _ _ hin)

end Filter

/-! ## In a session -/

namespace Pool

variable {ctx : Context} {pool : Pool} {held : List Instance}

/-- Joining the next instances one after the other to the first gives the instance, whatever is
asked in between. -/
def JoinsInto (ctx : Context) (kind : Junction) (whole : Instance) :
    Pool → List Instance → Instance → List Instance → Prop
  | _, _, first, [] => first = whole
  | pool, held, first, next :: rest =>
    ∀ {pool₁ : Pool} {held₁ : List Instance}, Leads ctx pool held pool₁ held₁ →
      ∃ joined pool₂, (serve ctx (.combine kind first next)).run pool₁ = (.ok [joined], pool₂) ∧
        JoinsInto ctx kind whole pool₂ (joined :: held₁) joined rest

/-- What can be joined without a pool is joined in the session. -/
theorem Reached.joinsInto {kind : Junction} {first whole : Instance} {rest : List Instance}
    (h : Reached ctx pool held) (hfirst : first ∈ held) (hwhole : whole ∈ held)
    (hrest : ∀ i ∈ rest, i ∈ held)
    (hentity : ∀ i ∈ rest, i.filter.entity = first.filter.entity)
    (hjoin : (rest.map Instance.filter).foldlM (ctx.builder.join kind) first.filter =
      .ok whole.filter) :
    JoinsInto ctx kind whole pool held first rest := by
  -- what was joined so far takes the place of the first instance, in the pool that it came with
  induction rest generalizing pool held first with
  | nil => exact h.eq_of_filter_eq hfirst hwhole (pure_eq_ok.1 hjoin)
  | cons next rest ih =>
    intro pool₁ held₁ hleads
    have hmem := hleads.mem
    rw [List.map_cons, List.foldlM_cons] at hjoin
    obtain ⟨f, hf, hjoin⟩ := bind_eq_ok.1 hjoin
    have hnext := hentity next List.mem_cons_self
    have hcombine : ctx.builder.combine kind first.filter next.filter = .ok f := by
      show (if first.filter.entity = next.filter.entity then _ else _) = _
      rw [if_pos hnext.symm]
      exact hf
    have hargs : ∀ i ∈ (Query.combine kind first next).arguments, i ∈ held₁ := by
      intro i hi
      rcases List.mem_pair.1 hi with rfl | rfl
      · exact hmem _ hfirst
      · exact hmem _ (hrest _ List.mem_cons_self)
    have hanswer : ctx.answer ((Query.combine kind first next).map Instance.filter) = .ok [f] :=
      bind_eq_ok.2 ⟨f, hcombine, rfl⟩
    obtain ⟨joined, pool₂, hrun, hjoined, hreached⟩ :=
      (hleads.reached h).serve_one hargs hanswer
    subst hjoined
    refine ⟨joined, pool₂, hrun, ih hreached List.mem_cons_self ?_ ?_ ?_ hjoin⟩
    · exact List.mem_cons_of_mem _ (hmem _ hwhole)
    · intro i hi
      exact List.mem_cons_of_mem _ (hmem _ (hrest _ (List.mem_cons_of_mem _ hi)))
    · intro i hi
      rw [entity_join hnext hf]
      exact hentity i (List.mem_cons_of_mem _ hi)

/-- Where a session hands out a normal form, it hands out the clauses as well however it goes on,
at least one, and joining them from the left gives the normal form itself. And where it hands out
clauses, no outer junction stands in them, and read as lists of atoms they are the ways through the
filter: all of them, in their order, each with its atoms in the order of the filter, and every atom
of the filter in one at least. -/
theorem Reached.splits_list_ways (h : Reached ctx pool held) {i : Instance} (hi : i ∈ held)
    (outer : Junction) :
    (∀ gs pool₁, (serve ctx (.normalForm outer i)).run pool = (.ok gs, pool₁) →
        ∃ g, gs = [g] ∧ ∀ {pool₂ : Pool} {held₂ : List Instance},
          Leads ctx pool₁ (g :: held) pool₂ held₂ →
            ∃ first rest pool₃,
              (serve ctx (.split outer i)).run pool₂ = (.ok (first :: rest), pool₃) ∧
              JoinsInto ctx outer g pool₃ (first :: rest ++ held₂) first rest) ∧
      ∀ cs pool₁, (serve ctx (.split outer i)).run pool = (.ok cs, pool₁) →
        (∀ c ∈ cs, ∀ e l r, ¬(Filter.junction e outer l r).StandsIn c.filter) ∧
          ∃ ways, i.filter.ListsWays outer ways ∧
            cs.map (fun c => c.filter.atoms.map some) =
              ways.map (Way.atomsOf i.filter.atoms) := by
  have hfits := h.fits i hi
  have harguments : ∀ {held' : List Instance}, i ∈ held' →
      ∀ j ∈ (Query.split outer i).arguments, j ∈ held' := by
    intro held' hmem j hj
    rwa [List.mem_singleton.1 hj]
  constructor
  · intro gs pool₁ hrun
    obtain ⟨g, rfl, hform, hreached⟩ :=
      h.of_run_one (q := .normalForm outer i) (harguments hi) rfl hrun
    obtain ⟨fs, hsplit, hjoin⟩ := bind_eq_ok.1 hform
    refine ⟨g, rfl, ?_⟩
    intro pool₂ held₂ hleads
    have hmem : i ∈ held₂ := hleads.mem i (List.mem_cons_of_mem g hi)
    obtain ⟨cs, pool₃, hrun', hcs, hreached₃⟩ :=
      (hleads.reached hreached).serve_ok (harguments hmem) hsplit
    have hclauses := Context.split_eq_ok hfits.inShape hfits.depth hsplit
    have hentity : ∀ f ∈ fs, f.entity = i.filter.entity := by
      rw [hclauses]
      exact hfits.inShape.joinable_clauseFilters.entity
    subst hcs
    cases cs with
    | nil => exact absurd hclauses.symm (i.filter.clauseFilters_ne_nil outer)
    | cons first rest =>
      refine ⟨first, rest, pool₃, hrun', ?_⟩
      apply hreached₃.joinsInto List.mem_cons_self
      · exact List.mem_append_right _ (hleads.mem g List.mem_cons_self)
      · intro c hc
        exact List.mem_append_left _ (List.mem_cons_of_mem _ hc)
      · intro c hc
        rw [hentity c.filter (List.mem_map_of_mem (List.mem_cons_of_mem _ hc)),
          hentity first.filter List.mem_cons_self]
      · exact hjoin
  · intro cs pool₁ hrun
    obtain ⟨-, hsplit⟩ := h.of_run (harguments hi) hrun
    have hclauses := Context.split_eq_ok hfits.inShape hfits.depth hsplit
    refine ⟨?_, i.filter.ways outer, i.filter.listsWays_ways outer, ?_⟩
    · intro c hc
      apply Filter.not_standsIn_clause
      rw [← hclauses]
      exact List.mem_map_of_mem hc
    · rw [← Filter.map_expand, ← Filter.map_atoms_clauseFilters, ← hclauses, List.map_map,
        List.map_map]
      rfl

namespace Sample

/-- The disjunctive form of the choice is handed out, then its two clauses, and joining the two
gives that form. -/
theorem splits_list_ways_choice :
    ∃ pool i g pool₁ first second pool₂ pool₃, Reached context pool [i] ∧ i.filter = choice ∧
      (serve context (.normalForm .or i)).run pool = (.ok [g], pool₁) ∧
      (serve context (.split .or i)).run pool₁ = (.ok [first, second], pool₂) ∧
      (serve context (.combine .or first second)).run pool₂ = (.ok [g], pool₃) ∧
      first.filter.atoms = [total .eq, total .gt] ∧ second.filter.atoms = [total .eq, anyLine] := by
  obtain ⟨pool, i, hreached, hi⟩ := exists_reached (f := choice) (by decide +kernel)
  have hanswer : context.answer (.normalForm .or i.filter) = .ok [disjunctiveChoice] := by
    rw [hi]
    decide +kernel
  have hsplit : context.answer (.split .or i.filter) = .ok alternatives := by
    rw [hi]
    decide +kernel
  obtain ⟨g, pool₁, hrun, -, hreached₁⟩ :=
    hreached.serve_one (q := .normalForm .or i) (by simp [Query.arguments]) hanswer
  obtain ⟨hforms, -⟩ := Reached.splits_list_ways hreached (List.mem_singleton_self i) .or
  obtain ⟨g', hg, hlater⟩ := hforms _ _ hrun
  obtain rfl := List.singleton_inj.1 hg
  obtain ⟨first, rest, pool₂, hrun₂, hjoins⟩ := hlater .refl
  obtain ⟨-, hclauses⟩ := hreached₁.of_run (q := .split .or i) (by simp [Query.arguments]) hrun₂
  obtain ⟨hfirst, hrest⟩ := List.cons_eq_cons.1 (Except.ok.inj (hclauses.symm.trans hsplit))
  obtain ⟨second, rfl, hsecond⟩ := List.map_eq_singleton_iff.1 hrest
  obtain ⟨joined, pool₃, hrun₃, hwhole⟩ := hjoins .refl
  obtain rfl : joined = g := hwhole
  refine ⟨pool, i, joined, pool₁, first, second, pool₂, pool₃, hreached, hi, hrun, hrun₂, hrun₃,
    ?_, ?_⟩
  · rw [hfirst]
    rfl
  · rw [hsecond]
    rfl

end Sample

end Pool

end RowFilter
