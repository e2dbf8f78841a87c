import RowFilter.Proofs.Sessions
import RowFilter.Proofs.Declared

/-!
# Filters that come back from their outlines

An outline travels without the grouping of its runs and without what the schema says of a name.
Nothing is lost: operands are listed only along the left spine of a run, so folding them to the
left again restores the grouping, and the names of a filter that was built resolve to the same
hops under the same use. The checks on the way back pass because the filter is in shape, so only
the limit of the context that rebuilds it matters.
-/

namespace RowFilter

open RowFilter.Grammar

/-! ## Runs -/

namespace Outline

variable {kind : Junction} {o p q : Outline}

/-- The outline is `o` itself or stands somewhere in it. -/
inductive Within : Outline → Outline → Prop where
  | self {o : Outline} : Within o o
  | sub {o sub : Outline} {entity : String} {chain : List HopName} {negated : Bool}
      (h : Within o sub) : Within o (.existence entity chain negated sub)
  | operand {o p : Outline} {kind : Junction} {operands : List Outline} (hp : p ∈ operands)
      (h : Within o p) : Within o (.junction kind operands)

/-- There are two operands or more, and the first is not a run of the same kind: it would have
been listed with the others. -/
def IsRun (kind : Junction) (operands : List Outline) : Prop :=
  ∃ first second rest, operands = first :: second :: rest ∧ ∀ inner, first ≠ .junction kind inner

/-- Every junction in the outline lists the operands of a run. -/
def ListsRuns (o : Outline) : Prop :=
  ∀ kind operands, Within (.junction kind operands) o → IsRun kind operands

theorem IsRun.append {operands : List Outline} (h : IsRun kind operands) (more : List Outline) :
    IsRun kind (operands ++ more) := by
  obtain ⟨first, second, rest, rfl, hfirst⟩ := h
  exact ⟨first, second, rest ++ more, rfl, hfirst⟩

/-- A junction of the kind lists its operands, any other outline is the one operand. -/
theorem operandsOf_cases (kind : Junction) (o : Outline) :
    (∃ operands, o = .junction kind operands ∧ o.operandsOf kind = operands) ∨
      (∀ operands, o ≠ .junction kind operands) ∧ o.operandsOf kind = [o] := by
  cases o with
  | junction k operands =>
    by_cases hk : k = kind
    · left
      exact ⟨operands, by rw [hk], if_pos hk⟩
    · right
      refine ⟨?_, if_neg hk⟩
      intro operands' h
      exact hk (Outline.junction.inj h).1
  | opened | closed | compare | existence =>
    right
    exact ⟨fun _ h => (nomatch h), rfl⟩

theorem Within.of_mem_operandsOf (hp : p ∈ o.operandsOf kind) (h : q.Within p) : q.Within o := by
  rcases operandsOf_cases kind o with ⟨operands, rfl, hoperands⟩ | ⟨-, hself⟩
  · rw [hoperands] at hp
    exact .operand hp h
  · rw [hself] at hp
    rwa [List.mem_singleton.1 hp] at h

/-- Behind what a junction lists to the left one more operand makes a run. -/
theorem ListsRuns.isRun_append (h : o.ListsRuns) (p : Outline) :
    IsRun kind (o.operandsOf kind ++ [p]) := by
  rcases operandsOf_cases kind o with ⟨operands, rfl, hoperands⟩ | ⟨hother, hself⟩
  · rw [hoperands]
    have hrun : IsRun kind operands := h kind operands .self
    exact hrun.append [p]
  · rw [hself]
    exact ⟨o, p, [], rfl, hother⟩

theorem ListsRuns.operandsOf_ne_nil (h : o.ListsRuns) : o.operandsOf kind ≠ [] := by
  rcases operandsOf_cases kind o with ⟨operands, rfl, hoperands⟩ | ⟨-, hself⟩
  · rw [hoperands]
    obtain ⟨first, second, rest, hlist, -⟩ := h kind operands .self
    rw [hlist]
    exact List.cons_ne_nil _ _
  · rw [hself]
    exact List.cons_ne_nil _ _

end Outline

/-- The junctions in the outline of a filter list runs. -/
theorem Filter.listsRuns_outline (f : Filter) : f.outline.ListsRuns := by
  induction f with
  | opened | closed | compare =>
    intro kind operands h
    exact nomatch h
  | existence e c negated sub ih =>
    intro kind operands h
    cases h with
    | sub h => exact ih kind operands h
  | junction e k left right ihl ihr =>
    intro kind operands h
    cases h with
    | self => exact ihl.isRun_append right.outline
    | operand hp h =>
      rcases List.mem_append.1 hp with hp | hp
      · exact ihl kind operands (.of_mem_operandsOf hp h)
      · rw [List.mem_singleton.1 hp] at h
        exact ihr kind operands h

/-! ## Folding runs -/

namespace Builder

variable {m : Type → Type} {φ : Type} [Monad m] [LawfulMonad m] [MonadExcept FilterError m]

theorem rebuildOnto_append (b : Builder m φ) (kind : Junction) (left : φ)
    (front back : List Outline) :
    b.rebuildOnto kind left (front ++ back) =
      b.rebuildOnto kind left front >>= fun joined => b.rebuildOnto kind joined back := by
  induction front generalizing left with
  | nil => simp [rebuildOnto]
  | cons next front ih => simp [rebuildOnto, ih]

/-- An outline that gives way to its operands is rebuilt before the operands behind it. -/
theorem rebuild_operandsOf (b : Builder m φ) {kind : Junction} {o : Outline}
    (h : o.operandsOf kind ≠ []) (rest : List Outline) :
    b.rebuild (.junction kind (o.operandsOf kind ++ rest)) =
      b.rebuild o >>= fun left => b.rebuildOnto kind left rest := by
  rcases Outline.operandsOf_cases kind o with ⟨operands, rfl, hoperands⟩ | ⟨-, hself⟩
  · rw [hoperands] at h ⊢
    cases operands with
    | nil => exact absurd rfl h
    | cons first operands => simp [rebuild, rebuildOnto_append]
  · rw [hself]
    simp [rebuild]

end Builder

/-! ## Nodes that come back -/

variable {ctx : Context}

/-- Names resolve to the chain that their path leads to. -/
theorem Chain.chainOf_names {schema : Schema} {c : Chain} {e : Entity} {use : ChainUse}
    {target : Option Entity} (h : c.path.resolve? schema e use = some ⟨c, target⟩) :
    schema.chainOf e c.names use = .ok ⟨c, target⟩ := by
  have hnames : (HopName.segmentsFrom 0 c.names).map Segment.hop = c.path.names := by
    rw [HopName.map_hop_segmentsFrom, names_path]
  exact (resolve_eq_ok hnames).2 h

/-- The constant of a comparison is already what the property holds. -/
theorem Leaf.InShape.operand_eq {l : Leaf} (h : l.InShape) :
    l.chain.operand l.operand = .ok l.operand := by
  cases hoperand : l.operand with
  | unbound | bound => rfl
  | constant v =>
    obtain ⟨kind, hkind⟩ := h.scalar
    have hcoerce : l.chain.coerce v = .ok v :=
      Chain.coerce_of_fixed hkind (h.constant hkind hoperand)
    show (do return Operand.constant (← l.chain.coerce v)) = _
    rw [hcoerce]
    rfl

namespace Context

theorem builder_entity_of_knows {name : String} (h : ctx.schema.Knows name) :
    ∃ e, ctx.builder.entity name = .ok e ∧ ctx.schema.Registers e ∧ e.name = name := by
  obtain ⟨e, he, hregisters, hname⟩ := ctx.entity_of_knows h
  refine ⟨e, ?_, hregisters, hname⟩
  unfold Builder.entity
  rw [ofExcept_eq]
  exact he

theorem rebuild_compare {l : Leaf} (hl : l.InShape) (hknown : ctx.schema.Knows l.entity)
    (hdeclared : l.chain.DeclaredIn ctx.schema) :
    ctx.builder.rebuild (Filter.compare l).outline = .ok (.compare l) := by
  obtain ⟨e, he, hregisters, hname⟩ := builder_entity_of_knows hknown
  have hpath := hl.resolve?_path hregisters hname.symm hdeclared
  have hchain := Chain.chainOf_names hpath
  have hoperand := hl.operand_eq
  rw [Filter.outline, Builder.rebuild]
  refine bind_eq_ok.2 ⟨e, he, bind_eq_ok.2 ⟨⟨l.chain, none⟩, ?_, ?_⟩⟩
  · rw [ofExcept_eq]
    exact hchain
  · refine bind_eq_ok.2 ⟨l.operand, ?_, ?_⟩
    · rw [ofExcept_eq]
      exact hoperand
    · rw [hname]
      rfl

theorem rebuild_existence {e : String} {c : Chain} {negated : Bool} {sub : Filter}
    (hshape : (Filter.existence e c negated sub).InShape)
    (hknown : ctx.schema.Knows e) (hdeclared : c.DeclaredIn ctx.schema)
    (hdepth : (Filter.existence e c negated sub).depth ≤ ctx.config.maxDepth)
    (hsub : ctx.builder.rebuild sub.outline = .ok sub) :
    ctx.builder.rebuild (Filter.existence e c negated sub).outline =
      .ok (.existence e c negated sub) := by
  obtain ⟨⟨hroot, hconnected, hkind⟩, hclosed, -⟩ := hshape
  obtain ⟨e', he, hregisters, hname⟩ := builder_entity_of_knows hknown
  obtain ⟨target, -, htarget, hpath⟩ :=
    Chain.resolve?_path_existence hregisters (hroot.trans hname.symm) hconnected hkind hdeclared
  have hchain := Chain.chainOf_names hpath
  rw [Filter.outline, Builder.rebuild]
  refine bind_eq_ok.2 ⟨e', he, bind_eq_ok.2 ⟨⟨c, some target⟩, ?_, ?_⟩⟩
  · rw [ofExcept_eq]
    exact hchain
  · refine bind_eq_ok.2 ⟨sub, hsub, bind_eq_ok.2 ⟨(), if_pos htarget, ?_⟩⟩
    rw [hname]
    exact existence_eq_ok.2 ⟨hclosed, rfl, hdepth⟩

theorem combine_eq_ok {e : String} {kind : Junction} {left right : Filter}
    (hshape : (Filter.junction e kind left right).InShape)
    (hdepth : (Filter.junction e kind left right).depth ≤ ctx.config.maxDepth) :
    ctx.builder.combine kind left right = .ok (.junction e kind left right) := by
  obtain ⟨⟨rfl, hlproper, -⟩, hentity, hrproper, -⟩ := hshape
  have hsame : ctx.builder.entityOf left = ctx.builder.entityOf right := hentity.symm
  unfold Builder.combine
  rw [if_pos hsame]
  exact (join_eq_ok hlproper hrproper).2 ⟨rfl, hdepth⟩

/-- A declared filter in shape comes back from its outline, unless it is too deep. -/
theorem rebuild_outline {f : Filter} (hshape : f.InShape) (hdeclared : f.DeclaredIn ctx.schema)
    (hdepth : f.depth ≤ ctx.config.maxDepth) : ctx.builder.rebuild f.outline = .ok f := by
  induction f with
  | opened e | closed e =>
    obtain ⟨e', he, -, rfl⟩ := builder_entity_of_knows hdeclared
    exact bind_eq_ok.2 ⟨e', he, rfl⟩
  | compare l => exact rebuild_compare hshape hdeclared.1 hdeclared.2
  | existence e c negated sub ih =>
    have hle : sub.depth ≤ ctx.config.maxDepth := by
      rw [Filter.depth] at hdepth
      omega
    have hsub := ih hshape.2.2 hdeclared.2.2 hle
    exact rebuild_existence hshape hdeclared.1 hdeclared.2.1 hdepth hsub
  | junction e kind left right ihl ihr =>
    have hle : left.depth ≤ ctx.config.maxDepth ∧ right.depth ≤ ctx.config.maxDepth := by
      rw [Filter.depth] at hdepth
      omega
    have hleft := ihl hshape.1.2.2 hdeclared.2.1 hle.1
    have hright := ihr hshape.2.2.2 hdeclared.2.2 hle.2
    have hne : left.outline.operandsOf kind ≠ [] := left.listsRuns_outline.operandsOf_ne_nil
    -- the left side comes back from what it listed, and the last operand is the right side
    rw [Filter.outline, Builder.rebuild_operandsOf _ hne, hleft]
    show ctx.builder.rebuildOnto kind left [right.outline] = _
    rw [Builder.rebuildOnto]
    refine bind_eq_ok.2 ⟨right, hright, bind_eq_ok.2 ⟨_, combine_eq_ok hshape hdepth, ?_⟩⟩
    rw [Builder.rebuildOnto]
    rfl

end Context

namespace Pool

variable {pool : Pool} {held : List Instance}

/-- A session over the schema of another one takes the outline of what that one handed out, if
its limit allows the depth: it hands out the one instance that it has of this filter. -/
theorem Reached.serve_rebuild {ctx' : Context} {pool' : Pool} {held' : List Instance}
    (h : Reached ctx pool held) {i : Instance} (hi : i ∈ held) (h' : Reached ctx' pool' held')
    (hschema : ctx'.schema = ctx.schema) (hdepth : i.depth ≤ ctx'.config.maxDepth) :
    ∃ j pool'', (serve ctx' (.rebuild i.filter.outline)).run pool' = (.ok [j], pool'') ∧
      j.filter = i.filter ∧ Reached ctx' pool'' (j :: held') := by
  obtain ⟨hfits, hdeclared⟩ := h.kept (declared_kept ctx) i hi
  have hsame : i.depth = i.filter.depth := h.sound.1.depth_eq (h.sound.2 i hi)
  rw [← hschema] at hdeclared
  rw [hsame] at hdepth
  have hback := Context.rebuild_outline hfits.inShape hdeclared hdepth
  have hanswer : ctx'.answer (.rebuild i.filter.outline) = .ok [i.filter] :=
    bind_eq_ok.2 ⟨i.filter, hback, rfl⟩
  have hargs : ∀ j ∈ (Query.rebuild i.filter.outline : Request).arguments, j ∈ held' := by
    simp [Query.arguments]
  exact h'.serve_one hargs hanswer

/-- What was handed out comes back from its outline: in the same session as the instance itself,
in any session over the same schema whose limit allows the depth as the instance that stands in
the table for the same filter. Every junction in the outline lists two operands or more and
begins with none of its own kind. -/
theorem Reached.rebuilds_outline (h : Reached ctx pool held) {i : Instance} (hi : i ∈ held) :
    (∃ pool', (serve ctx (.rebuild i.filter.outline)).run pool = (.ok [i], pool')) ∧
      (∀ {ctx' : Context} {pool' : Pool} {held' : List Instance}, ctx'.schema = ctx.schema →
        i.depth ≤ ctx'.config.maxDepth → Reached ctx' pool' held' →
        ∃ j pool'', (serve ctx' (.rebuild i.filter.outline)).run pool' = (.ok [j], pool'') ∧
          j.filter = i.filter ∧ pool''.instances[j.key]? = some j ∧
          Reached ctx' pool'' (j :: held') ∧ ∀ k ∈ held', k.filter = i.filter → j = k) ∧
      ∀ kind operands, (Outline.junction kind operands).Within i.filter.outline →
        Outline.IsRun kind operands := by
  refine ⟨?_, ?_, i.filter.listsRuns_outline⟩
  · have hfits := h.fits i hi
    have hdepth : i.depth ≤ ctx.config.maxDepth := by
      rw [h.sound.1.depth_eq (h.sound.2 i hi)]
      exact hfits.depth
    obtain ⟨j, pool', hrun, hj, hreached⟩ := h.serve_rebuild hi h rfl hdepth
    have hsame : j = i := hreached.eq_of_filter_eq (by simp) (by simp [hi]) hj
    rw [hsame] at hrun
    exact ⟨pool', hrun⟩
  · intro ctx' pool' held' hschema hdepth h'
    obtain ⟨j, pool'', hrun, hj, hreached⟩ := h.serve_rebuild hi h' hschema hdepth
    have hmem : j ∈ j :: held' := List.mem_cons_self
    refine ⟨j, pool'', hrun, hj, hreached.sound.2 j hmem, hreached, ?_⟩
    intro k hk hkf
    exact hreached.eq_of_filter_eq hmem (List.mem_cons_of_mem _ hk) (hj.trans hkf.symm)

/-! ### Runs in runs -/

namespace Sample

/-- A run to the left of a run: the orders of some total with a line, and without a line over
more than the total of its order. -/
def grouped : Filter :=
  .junction "order" .and (.junction "order" .and (total .eq) anyLine) filter

/-- The same schema with the least limit that allows the runs. -/
def shallow : Context :=
  { context with config := { context.config with maxDepth := 4, maxDepth_pos := Nat.succ_pos 3 } }

theorem rebuilds_outline_grouped :
    ∃ pool i pool', Reached context pool [i] ∧ i.filter = grouped ∧
      (serve context (.rebuild grouped.outline)).run pool = (.ok [i], pool') ∧
      ∃ j pool'', (serve shallow (.rebuild grouped.outline)).run empty = (.ok [j], pool'') ∧
        j.filter = grouped ∧ pool''.instances[j.key]? = some j := by
  obtain ⟨pool, i, hreached, hfilter⟩ := exists_reached (f := grouped) (by decide +kernel)
  have hmem : i ∈ [i] := List.mem_singleton_self i
  have hdepth : i.depth ≤ shallow.config.maxDepth := by
    rw [hreached.sound.1.depth_eq (hreached.sound.2 i hmem), hfilter]
    decide +kernel
  obtain ⟨⟨pool', hself⟩, hother, -⟩ := Reached.rebuilds_outline hreached hmem
  obtain ⟨j, pool'', hrun, hj, htable, -⟩ := @hother shallow empty [] rfl hdepth .start
  rw [hfilter] at hself hrun hj
  exact ⟨pool, i, pool', hreached, hfilter, hself, j, pool'', hrun, hj, htable⟩

end Sample

end Pool

end RowFilter
