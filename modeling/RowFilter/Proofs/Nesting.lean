import RowFilter.Proofs.Records
import RowFilter.Proofs.Outlines

/-!
# How deep filters nest on the wire

Every existence test and every run of junctions is a variant with a container in it, so a filter
takes two levels of nesting for each, where its depth counts one. Bytes of a filter that a session
handed out come back as that filter exactly if the nesting is within what items may have, which the
depth limit of the standard configuration does not imply.
-/

namespace RowFilter

open RowFilter.Wire

/-! ## Containers -/

namespace Filter

/-- The filter is a junction of the kind. -/
def isJunction (kind : Junction) : Filter → Bool
  | junction _ k _ _ => k = kind
  | _ => false

/-- How many containers stand in each other in the bytes of the filter. The left operand of a
junction of the same kind is listed in the same containers. -/
def containers : Filter → Nat
  | opened _ => 2
  | closed _ => 2
  | compare l =>
    match l.operand with
    | .constant (.blob _) => 5
    | _ => 4
  | existence _ _ _ sub => sub.containers + 2
  | junction _ kind left right =>
    max (if left.isJunction kind then left.containers else left.containers + 2)
      (right.containers + 2)

/-- A level takes two containers at most, and a comparison up to three more. -/
theorem containers_le (f : Filter) : f.containers ≤ 2 * f.depth + 3 := by
  induction f with
  | opened | closed => simp [containers, depth]
  | compare l =>
    rw [containers, depth]
    split <;> omega
  | existence e c negated sub ih =>
    rw [containers, depth]
    omega
  | junction e kind left right ihl ihr =>
    rw [containers, depth]
    split <;> omega

end Filter

theorem Filter.isJunction_iff {kind : Junction} {f : Filter} :
    f.isJunction kind = true ↔ ∃ operands, f.outline = .junction kind operands := by
  cases f <;> simp [Filter.isJunction, Filter.outline]

/-- What a filter lists in a run nests as deep as the containers of the run leave room for. -/
theorem Filter.nestingAll_operandsOf {kind : Junction} {f : Filter}
    (h : f.outline.toItem.nesting = f.containers) :
    Item.nestingAll ((f.outline.operandsOf kind).map Outline.toItem) + 2 =
      if f.isJunction kind then f.containers else f.containers + 2 := by
  rcases Outline.operandsOf_cases kind f.outline with ⟨operands, ho, hoperands⟩ | ⟨hother, hself⟩
  · have hjunction : f.isJunction kind = true := isJunction_iff.2 ⟨operands, ho⟩
    rw [hoperands, if_pos hjunction, ← h, ho, Outline.nesting_junction]
  · have hjunction : ¬f.isJunction kind = true := by
      intro hjunction
      obtain ⟨operands, ho⟩ := isJunction_iff.1 hjunction
      exact hother operands ho
    rw [hself, if_neg hjunction, ← h, List.map_singleton]
    simp [Item.nestingAll]

/-- The bytes of a comparison nest as deep as its containers. -/
theorem Filter.nesting_compare (l : Leaf) :
    (Filter.compare l).outline.toItem.nesting = (Filter.compare l).containers := by
  have hchain : (HopName.listToItem l.chain.names).nesting = 2 := by
    rw [HopName.nesting_listToItem, if_neg l.chain.names_ne_nil]
  rw [outline, Outline.nesting_compare, hchain, Operand.nesting_toItem, containers]
  cases hoperand : l.operand with
  | unbound | bound => rfl
  | constant v =>
    simp only [Value.nesting_toItem]
    cases v <;> rfl

/-- The bytes of a filter nest as deep as its containers. -/
theorem Filter.nesting_outline (f : Filter) : f.outline.toItem.nesting = f.containers := by
  induction f with
  | opened e => exact Outline.nesting_opened e
  | closed e => exact Outline.nesting_closed e
  | compare l => exact nesting_compare l
  | existence e c negated sub ih =>
    rw [outline, Outline.nesting_existence, ih, containers]
  | junction e kind left right ihl ihr =>
    -- the left operand shares the containers of its run, so it counts by what it lists
    have hleft := @nestingAll_operandsOf kind left ihl
    rw [outline, Outline.nesting_junction, List.map_append, Item.nestingAll_append, containers,
      ← hleft, ← ihr, Nat.add_max_add_right]
    simp [Item.nestingAll]

/-! ## Decoding -/

/-- The bytes of a filter are read as its outline, unless they nest too deep. -/
theorem Filter.decodeAs_encode {f : Filter} (hsize : f.encode.length ≤ payloadLimit) :
    decodeAs Outline.ofItem? f.encode =
      if f.containers ≤ nestingLimit then .ok f.outline else .error (.wire .unreadable) := by
  rw [← f.nesting_outline]
  exact Wire.decodeAs_encode f.outline.regular_toItem hsize fun hle =>
    Outline.ofItemWithin?_toItem hle

variable {ctx : Context}

/-- The bytes of a filter that the context could have built are read as that filter, unless they
nest too deep. -/
theorem Context.decodeFilter_encode {f : Filter} (hshape : f.InShape)
    (hdeclared : f.DeclaredIn ctx.schema) (hdepth : f.depth ≤ ctx.config.maxDepth)
    (hsize : f.encode.length ≤ payloadLimit) (hnesting : f.containers ≤ nestingLimit) :
    ctx.decodeFilter f.encode = .ok f := by
  have hread : decodeAs Outline.ofItem? f.encode = .ok f.outline := by
    rw [f.decodeAs_encode hsize, if_pos hnesting]
  refine bind_eq_ok.2 ⟨f.outline, ?_, rebuild_outline hshape hdeclared hdepth⟩
  rw [ofExcept_eq]
  exact hread

namespace Pool

variable {pool : Pool} {held : List Instance}

/-- What cannot be read is refused before anything is entered. -/
theorem serve_decode_error {bytes : List UInt8} {e : FilterError}
    (h : decodeAs Outline.ofItem? bytes = .error e) :
    (serve ctx (.decode bytes)).run pool = (.error e, pool) := by
  have hdecode : (builder ctx).decode bytes = throw e := by
    unfold Builder.decode
    rw [h]
    rfl
  show ((builder ctx).decode bytes >>= fun i => pure [i]).run pool = _
  rw [hdecode]
  rfl

/-- The bytes of what was handed out come back as the very instance if they nest no deeper than
items may, and are refused as unreadable otherwise. They nest at most twice as deep as the
filter and three levels more. -/
theorem Reached.decodes_encoded (h : Reached ctx pool held) {i : Instance} (hi : i ∈ held)
    (hsize : i.filter.encode.length ≤ payloadLimit) :
    (i.filter.containers ≤ nestingLimit →
        ∃ pool', (serve ctx (.decode i.filter.encode)).run pool = (.ok [i], pool')) ∧
      (nestingLimit < i.filter.containers →
        (serve ctx (.decode i.filter.encode)).run pool = (.error (.wire .unreadable), pool)) ∧
      i.filter.containers ≤ 2 * i.depth + 3 := by
  have hsame : i.depth = i.filter.depth := h.sound.1.depth_eq (h.sound.2 i hi)
  refine ⟨?_, ?_, ?_⟩
  · intro hnesting
    obtain ⟨hfits, hdeclared⟩ := h.kept (declared_kept ctx) i hi
    have hback := Context.decodeFilter_encode hfits.inShape hdeclared hfits.depth hsize hnesting
    have hanswer : ctx.answer (.decode i.filter.encode) = .ok [i.filter] :=
      bind_eq_ok.2 ⟨i.filter, hback, rfl⟩
    have hargs : ∀ j ∈ (Query.decode i.filter.encode : Request).arguments, j ∈ held := by
      simp [Query.arguments]
    obtain ⟨j, pool', hrun, hj, hreached⟩ := h.serve_one hargs hanswer
    have heq : j = i := hreached.eq_of_filter_eq (by simp) (by simp [hi]) hj
    rw [heq] at hrun
    exact ⟨pool', hrun⟩
  · intro hnesting
    apply serve_decode_error
    rw [Filter.decodeAs_encode hsize, if_neg (Nat.not_le.2 hnesting)]
  · rw [hsame]
    exact i.filter.containers_le

/-! ### Tests in tests -/

namespace Sample

/-- The lines of an order that has lines of an order that has lines, and so on. -/
def siblings : Nat → Filter
  | 0 => .opened "line"
  | n + 1 =>
    .existence "line" ⟨[⟨⟨⟨"order", .relation "order" .toOne, false⟩, "line"⟩, false⟩],
      ⟨⟨⟨"lines", .relation "line" .toMany, false⟩, "order"⟩, false⟩⟩ false (siblings n)

theorem length_encode_siblings (n : Nat) : (siblings n).encode.length = 19 + 87 * n := by
  induction n with
  | zero =>
    unfold Filter.encode
    rw [siblings, Filter.outline, Outline.toItem]
    decide
  | succ n ih =>
    have hlevel : (siblings (n + 1)).encode.length = (siblings n).encode.length + 87 := by
      unfold Filter.encode
      rw [siblings, Filter.outline, Outline.toItem]
      rfl
    rw [hlevel, ih]
    omega

theorem decodes_encoded_siblings :
    ∃ pool i pool', Reached context pool [i] ∧ i.filter = siblings 62 ∧
      i.filter.encode.length ≤ payloadLimit ∧ i.filter.containers ≤ nestingLimit ∧
      (serve context (.decode i.filter.encode)).run pool = (.ok [i], pool') := by
  obtain ⟨pool, i, hreached, hfilter⟩ := @exists_reached (siblings 62) (by decide +kernel)
  have hmem : i ∈ [i] := List.mem_singleton_self i
  have hsize : i.filter.encode.length ≤ payloadLimit := by
    rw [hfilter, length_encode_siblings]
    decide
  have hnesting : i.filter.containers ≤ nestingLimit := by
    rw [hfilter]
    decide
  obtain ⟨pool', hrun⟩ := (hreached.decodes_encoded hmem hsize).1 hnesting
  exact ⟨pool, i, pool', hreached, hfilter, hsize, hnesting, hrun⟩

/-- In the standard configuration a filter one level deeper is built all the same, and its bytes
are refused. -/
theorem refuses_encoded_siblings :
    ∃ pool i, Reached context pool [i] ∧ i.filter = siblings 63 ∧
      i.filter.encode.length ≤ payloadLimit ∧
      (serve context (.decode i.filter.encode)).run pool = (.error (.wire .unreadable), pool) := by
  obtain ⟨pool, i, hreached, hfilter⟩ := @exists_reached (siblings 63) (by decide +kernel)
  have hsize : i.filter.encode.length ≤ payloadLimit := by
    rw [hfilter, length_encode_siblings]
    decide
  refine ⟨pool, i, hreached, hfilter, hsize, ?_⟩
  apply serve_decode_error
  rw [Filter.decodeAs_encode hsize, hfilter, if_neg (by decide)]

end Sample

end Pool

end RowFilter
