import RowFilter.Proofs.Items
import RowFilter.Wire.Outline

/-!
# Records, values and outlines that come back from their items

Variants and records are read by name, so what is written under declared names is found again
whatever the order of declaration. Values, operands, hops and outlines come back from the items
they are written as; of an outline only the levels have to suffice.
-/

namespace RowFilter

open RowFilter.Wire RowFilter.Number

namespace Wire.Item

/-! ## Variants -/

variable {names : List String} {name : String} {content : Item} {i : Nat}

@[simp] theorem nesting_variant (name : String) (content : Item) :
    (variant name content).nesting = content.nesting + 1 := by
  simp [variant, nesting, nestingEntries]

@[simp] theorem regular_variant : (variant name content).Regular ↔ content.Regular := by
  simp [variant, Regular, RegularEntries]

/-- A name is looked up among the names by its text. -/
theorem position?_text (names : List String) (s : String) :
    (text s).position? names = some (names.idxOf? s) := rfl

/-- A variant whose name is known is read with the place of the name. -/
theorem toVariant?_variant (h : names.idxOf? name = some i) (content : Item) :
    (variant name content).toVariant? names = some (i, some content) := by
  simp [variant, toVariant?, declared?, position?_text, h]

/-! ## Records -/

/-- A record is one map around all that its fields contain. -/
@[simp] theorem nesting_record (fields : List (String × Item)) :
    (record fields).nesting = nestingAll (fields.map Prod.snd) + 1 := by
  have hentries : ∀ fields : List (String × Item),
      nestingEntries (fields.map fun f => (text f.1, f.2)) = nestingAll (fields.map Prod.snd) := by
    intro fields
    induction fields with
    | nil => rfl
    | cons f fields ih => simp [nestingEntries, nestingAll, nesting, ih]
  rw [record, nesting, hentries]

/-- A record is regular just if its fields are. -/
theorem regular_record {fields : List (String × Item)} :
    (record fields).Regular ↔ ∀ f ∈ fields, f.2.Regular := by
  rw [record, Regular, List.length_map, regularEntries_iff, List.forall_mem_map]
  simp [Regular]

theorem idxOf?_append_cons {front : List String} (h : name ∉ front) (back : List String) :
    (front ++ name :: back).idxOf? name = some front.length := by
  induction front with
  | nil => simp [List.idxOf?_cons]
  | cons first front ih =>
    rw [List.mem_cons, not_or] at h
    have hne : (first == name) = false := beq_eq_false_iff_ne.2 (Ne.symm h.1)
    rw [List.cons_append, List.idxOf?_cons, hne, ih h.2]
    rfl

/-- The places of the contents when the fields in `front` have been found and those in `back` are
to come. -/
def placesAt (front back : List (String × Item)) : List (Option Item) :=
  front.map (fun f => some f.2) ++ back.map fun _ => none

/-- The place of the next field is still empty. -/
theorem placesAt_next (front back : List (String × Item)) (f : String × Item) :
    (placesAt front (f :: back))[front.length]? = some none := by
  unfold placesAt
  rw [List.getElem?_append_right (by simp), List.length_map, Nat.sub_self]
  rfl

/-- Filling it moves the field to those that were read. -/
theorem placesAt_set (front back : List (String × Item)) (f : String × Item) :
    (placesAt front (f :: back)).set front.length (some f.2) = placesAt (front ++ [f]) back := by
  unfold placesAt
  rw [List.set_append_right _ _ (by simp), List.length_map, Nat.sub_self]
  simp

/-- Fields under declared names are found one after the other. -/
theorem collectFields_declared (front back : List (String × Item))
    (hnodup : ((front ++ back).map Prod.fst).Nodup) :
    collectFields ((front ++ back).map Prod.fst) (placesAt front back)
        (back.map fun f => (text f.1, f.2)) = some (placesAt (front ++ back) []) := by
  induction back generalizing front with
  | nil => simp [collectFields]
  | cons f back ih =>
    have hsplit : front ++ f :: back = (front ++ [f]) ++ back := by simp
    have hfresh : f.1 ∉ front.map Prod.fst := by
      rw [List.map_append, List.map_cons] at hnodup
      intro hmem
      exact (List.nodup_append.1 hnodup).2.2 f.1 hmem f.1 List.mem_cons_self rfl
    have hposition : (text f.1).position? ((front ++ f :: back).map Prod.fst) =
        some (some front.length) := by
      rw [List.map_append, List.map_cons, position?_text, idxOf?_append_cons hfresh,
        List.length_map]
    have hrest := ih (front ++ [f]) (hsplit ▸ hnodup)
    rw [← hsplit] at hrest
    show collectFields _ _ ((text f.1, f.2) :: back.map fun f => (text f.1, f.2)) = _
    rw [collectFields, hposition]
    simp only [placesAt_next, placesAt_set, hrest]

/-- Things that each come back come back as a list. -/
theorem mapM_map {α β : Type} {g : β → Option α} {w : α → β} {as : List α}
    (h : ∀ a ∈ as, g (w a) = some a) : (as.map w).mapM g = some as := by
  induction as with
  | nil => rfl
  | cons a as ih =>
    have hrest := ih fun b hb => h b (List.mem_cons_of_mem _ hb)
    rw [List.map_cons, List.mapM_cons, h a List.mem_cons_self, hrest]
    rfl

/-- The fields of a map are collected into places, and all places have to be filled. -/
theorem toFields?_map (names : List String) (single : Bool) (entries : List (Item × Item)) :
    (map single entries).toFields? names =
      (collectFields names (names.map fun _ => none) entries).bind fun found => found.mapM id :=
  rfl

/-- A record comes back under its names. -/
theorem toFields?_record {fields : List (String × Item)}
    (hnodup : (fields.map Prod.fst).Nodup) :
    (record fields).toFields? (fields.map Prod.fst) = some (fields.map Prod.snd) := by
  have hfound := collectFields_declared [] fields hnodup
  have hall : (placesAt fields []).mapM id = some (fields.map Prod.snd) := by
    have hplaces : placesAt fields [] = (fields.map Prod.snd).map some := by simp [placesAt]
    rw [hplaces]
    exact mapM_map fun _ _ => rfl
  have hstart : (fields.map Prod.fst).map (fun _ => none) = placesAt [] fields :=
    List.map_map
  rw [record, toFields?_map, hstart]
  rw [List.nil_append] at hfound
  rw [hfound, Option.bind_some, hall]

/-! ## Scalars -/

theorem toInt?_unsigned (n : UInt64) : (unsigned n).toInt? = some (n.toNat : Int) := rfl

/-- A negative number is read down to the least one of 64 bits. -/
theorem toInt?_negative (n : UInt64) :
    (negative n).toInt? = if Int64.minValue.toInt ≤ -1 - (n.toNat : Int) then
      some (-1 - (n.toNat : Int)) else none := rfl

/-- An integer that fits the wire comes back. -/
theorem toInt?_ofInt {n : Int} (hlow : Int64.minValue.toInt ≤ n) (hhigh : n < UInt64.size) :
    (ofInt n).toInt? = some n := by
  have hmin : Int64.minValue.toInt = -9223372036854775808 := by decide
  have hsize : UInt64.size = 18446744073709551616 := rfl
  unfold ofInt
  split
  · next hnonneg =>
    have hlt : n.toNat < UInt64.size := by omega
    rw [toInt?_unsigned, UInt64.toNat_ofNat_of_lt' hlt, Int.toNat_of_nonneg hnonneg]
  · next hneg =>
    have hlt : (-1 - n).toNat < UInt64.size := by omega
    have hback : -1 - ((-1 - n).toNat : Int) = n := by omega
    rw [toInt?_negative, UInt64.toNat_ofNat_of_lt' hlt, hback, if_pos hlow]

theorem toInt64?_ofInt (n : Int64) : (ofInt n.toInt).toInt64? = some n := by
  have hmax : Int64.maxValue.toInt = 9223372036854775807 := by decide
  have hsize : UInt64.size = 18446744073709551616 := rfl
  have hlow : Int64.minValue.toInt ≤ n.toInt := n.minValue_le_toInt
  have hhigh : n.toInt ≤ Int64.maxValue.toInt := n.toInt_le
  rw [toInt64?, toInt?_ofInt hlow (by omega), Option.bind_some, if_pos hhigh, Int64.ofInt_toInt]

theorem toUInt64?_unsigned (n : UInt64) : (unsigned n).toUInt64? = some n := by
  rw [toUInt64?, toInt?_unsigned, Option.bind_some, if_pos (Int.natCast_nonneg _),
    Int.toNat_natCast, UInt64.ofNat_toNat]

theorem toByte?_unsigned (b : UInt8) : (unsigned b.toUInt64).toByte? = some b := by
  have hlt : b.toNat < UInt8.size := b.toNat_lt
  have hrange : 0 ≤ (b.toNat : Int) ∧ (b.toNat : Int) < UInt8.size := by omega
  rw [toByte?, toInt?_unsigned, UInt8.toNat_toUInt64, Option.bind_some, if_pos hrange,
    Int.toNat_natCast, UInt8.ofNat_toNat]

end Wire.Item

/-! ## Values -/

namespace Value

open Wire.Item

/-- A value is a variant with a scalar in it, but bytes are listed and null is a name. -/
theorem nesting_toItem (v : Value) :
    v.toItem.nesting = match v with | .blob _ => 2 | .null => 0 | _ => 1 := by
  cases v with
  | blob bs =>
    have hbytes : nestingAll (bs.map fun b => unsigned b.toUInt64) ≤ 0 :=
      nestingAll_map_le.2 fun _ _ => Nat.le_refl 0
    rw [toItem, nesting_variant, nesting, Nat.le_zero.1 hbytes]
  | bool | float64 | null | text | uint => simp [toItem, nesting]
  | int n | timestamp n =>
    rw [toItem, nesting_variant, ofInt]
    split <;> simp [nesting]

theorem regular_toItem (v : Value) : v.toItem.Regular := by
  cases v with
  | blob bs =>
    rw [toItem, regular_variant, regular_array_map]
    exact fun _ _ => trivial
  | bool | float64 | text | uint => exact regular_variant.2 trivial
  | null => trivial
  | int n | timestamp n =>
    rw [toItem, regular_variant, ofInt]
    split <;> trivial

/-- A value is read from the content of its variant, by the place of the name. -/
theorem ofItem?_variant {name : String} {position : Nat}
    (h : variantNames.idxOf? name = some position) (content : Item) :
    ofItem? (variant name content) = ofContent? position content := by
  rw [ofItem?, toVariant?_variant h]

/-- A value comes back from its item. -/
theorem ofItem?_toItem (v : Value) : ofItem? v.toItem = some v := by
  cases v with
  | blob bs =>
    have hbytes : (bs.map fun b => unsigned b.toUInt64).mapM toByte? = some bs :=
      mapM_map fun b _ => toByte?_unsigned b
    rw [toItem, ofItem?_variant rfl]
    show ((bs.map fun b => unsigned b.toUInt64).mapM toByte?).bind (fun bs => some (blob bs)) = _
    rw [hbytes]
    rfl
  | bool b =>
    rw [toItem, ofItem?_variant rfl]
    rfl
  | float64 x =>
    rw [toItem, ofItem?_variant rfl]
    rfl
  | int n =>
    rw [toItem, ofItem?_variant rfl]
    exact congrArg (Option.map int) (toInt64?_ofInt n)
  | null => rfl
  | text s =>
    rw [toItem, ofItem?_variant rfl]
    rfl
  | timestamp n =>
    rw [toItem, ofItem?_variant rfl]
    exact congrArg (Option.map timestamp) (toInt64?_ofInt n)
  | uint n =>
    rw [toItem, ofItem?_variant rfl]
    exact congrArg (Option.map uint) (toUInt64?_unsigned n)

end Value

/-! ## Parts of outlines -/

section Parts

open Wire.Item

/-- An operator comes back from its name. -/
theorem RelOp.ofItem?_variantName (op : RelOp) : ofItem? (.text op.variantName) = some op := by
  cases op <;> rfl

/-- A number is one variant around nothing, a constant one around its value. -/
theorem Operand.nesting_toItem (o : Operand) :
    o.toItem.nesting =
      match o with | .unbound => 0 | .bound _ => 1 | .constant v => v.toItem.nesting + 1 := by
  cases o with
  | unbound => rfl
  | bound id => simp [toItem, nesting]
  | constant v => rw [toItem, nesting_variant]

theorem Operand.regular_toItem (o : Operand) : o.toItem.Regular := by
  cases o with
  | unbound => trivial
  | bound id => exact regular_variant.2 trivial
  | constant v => exact regular_variant.2 v.regular_toItem

/-- An operand comes back from its item. -/
theorem Operand.ofItem?_toItem (o : Operand) : ofItem? o.toItem = some o := by
  cases o with
  | unbound => rfl
  | bound id =>
    have hlt : id.toNat < UInt32.size := id.toNat_lt
    have hrange : 0 ≤ (id.toNat : Int) ∧ (id.toNat : Int) < UInt32.size := by omega
    show ((unsigned id.toUInt64).toInt?.bind fun n =>
      if 0 ≤ n ∧ n < UInt32.size then some (bound (UInt32.ofNat n.toNat)) else none) = _
    rw [toInt?_unsigned, UInt32.toNat_toUInt64, Option.bind_some, if_pos hrange,
      Int.toNat_natCast, UInt32.ofNat_toNat]
  | constant v =>
    have hkind : ["Unbound", "Bound", "Constant"].idxOf? "Constant" = some 2 := by decide
    rw [toItem, ofItem?, toVariant?_variant hkind]
    exact congrArg (Option.map constant) v.ofItem?_toItem

theorem HopName.nesting_toItem (h : HopName) : h.toItem.nesting = 1 := by
  simp [toItem, nesting, nestingAll]

theorem HopName.regular_toItem (h : HopName) : h.toItem.Regular :=
  regular_record.2 (by simp [Regular])

/-- A hop comes back from its item. -/
theorem HopName.ofItem?_toItem (h : HopName) : ofItem? h.toItem = some h := by
  have hfields : h.toItem.toFields? ["property", "outer"] =
      some [.text h.property, .bool h.outer] := by
    have hnodup : ["property", "outer"].Nodup := by decide
    exact @toFields?_record [("property", .text h.property), ("outer", .bool h.outer)] hnodup
  rw [ofItem?, hfields]
  rfl

/-- The hops of a chain as an item. -/
def HopName.listToItem (chain : List HopName) : Item :=
  .array (chain.map HopName.toItem)

/-- A chain is an array, and its hops are maps in it. -/
theorem HopName.nesting_listToItem (chain : List HopName) :
    (listToItem chain).nesting = if chain = [] then 1 else 2 := by
  cases chain with
  | nil => rfl
  | cons h chain =>
    have hhops : nestingAll (chain.map HopName.toItem) ≤ 1 :=
      nestingAll_map_le.2 fun h _ => h.nesting_toItem.le
    rw [listToItem, nesting, List.map_cons, nestingAll, h.nesting_toItem,
      Nat.max_eq_left hhops, if_neg (List.cons_ne_nil h chain)]

theorem HopName.regular_listToItem (chain : List HopName) : (listToItem chain).Regular :=
  regular_array_map.2 fun h _ => h.regular_toItem

/-- A chain comes back from the array of its hops. -/
theorem HopName.listOfItem?_listToItem (chain : List HopName) :
    listOfItem? (listToItem chain) = some chain :=
  mapM_map fun h _ => h.ofItem?_toItem

end Parts

/-! ## Outlines -/

namespace Outline

open Wire.Item

/-- Induction over the outlines within. -/
@[elab_as_elim, induction_eliminator]
theorem induct {motive : Outline → Prop} (opened : ∀ entity, motive (.opened entity))
    (closed : ∀ entity, motive (.closed entity))
    (compare : ∀ entity chain op operand, motive (.compare entity chain op operand))
    (existence : ∀ entity chain negated sub, motive sub →
      motive (.existence entity chain negated sub))
    (junction : ∀ kind operands, (∀ o ∈ operands, motive o) → motive (.junction kind operands))
    (o : Outline) : motive o :=
  @Outline.rec motive (fun operands => ∀ o ∈ operands, motive o) opened closed compare existence
    junction (fun _ h => nomatch h)
    (fun _ _ hhead htail => List.forall_mem_cons.2 ⟨hhead, htail⟩) o

/-- What is sent of an outline can be sent, by induction on the outline. -/
theorem regular_toItem (o : Outline) : o.toItem.Regular := by
  induction o with
  | opened entity | closed entity =>
    rw [toItem, regular_variant, regular_record]
    simp [Regular]
  | compare entity chain op operand =>
    have hchain := HopName.regular_listToItem chain
    have hoperand := operand.regular_toItem
    rw [toItem, regular_variant, regular_record]
    simp only [List.forall_mem_cons, List.not_mem_nil, false_implies, implies_true, and_true]
    exact ⟨trivial, hchain, trivial, hoperand⟩
  | existence entity chain negated sub ih =>
    have hchain := HopName.regular_listToItem chain
    rw [toItem, regular_variant, regular_record]
    simp only [List.forall_mem_cons, List.not_mem_nil, false_implies, implies_true, and_true]
    exact ⟨trivial, hchain, trivial, ih⟩
  | junction kind operands ih =>
    rw [toItem, regular_variant, regular_array_map]
    exact ih

/-! ### Nesting -/

theorem nesting_opened (entity : String) : (opened entity).toItem.nesting = 2 := by
  simp [toItem, nesting, nestingAll]

theorem nesting_closed (entity : String) : (closed entity).toItem.nesting = 2 := by
  simp [toItem, nesting, nestingAll]

/-- A comparison is a record in a variant, with its chain and its operand side by side. -/
theorem nesting_compare (entity : String) (chain : List HopName) (op : RelOp)
    (operand : Operand) :
    (compare entity chain op operand).toItem.nesting =
      max (HopName.listToItem chain).nesting operand.toItem.nesting + 2 := by
  rw [toItem, nesting_variant, nesting_record]
  simp [nestingAll, nesting, HopName.listToItem]

/-- A junction is an array in a variant, with its operands side by side. -/
theorem nesting_junction (kind : Junction) (operands : List Outline) :
    (junction kind operands).toItem.nesting = nestingAll (operands.map toItem) + 2 := by
  rw [toItem, nesting_variant, nesting]

/-- An outline is a variant with a container in it. -/
theorem two_le_nesting (o : Outline) : 2 ≤ o.toItem.nesting := by
  cases o <;> simp [toItem, nesting]

/-- The chain of an existence test nests no deeper than the outline under it. -/
theorem nesting_existence (entity : String) (chain : List HopName) (negated : Bool)
    (sub : Outline) :
    (existence entity chain negated sub).toItem.nesting = sub.toItem.nesting + 2 := by
  have hchain : (HopName.listToItem chain).nesting ≤ 2 := by
    rw [HopName.nesting_listToItem]
    split <;> omega
  have hmax : max (HopName.listToItem chain).nesting sub.toItem.nesting = sub.toItem.nesting :=
    Nat.max_eq_right (Nat.le_trans hchain sub.two_le_nesting)
  rw [toItem, nesting_variant, nesting_record, ← hmax]
  simp [nestingAll, nesting, HopName.listToItem]

/-! ### Reading -/

/-- A comparison comes back from its fields. -/
theorem compareOf?_record (entity : String) (chain : List HopName) (op : RelOp)
    (operand : Operand) :
    compareOf? (record [("entity", .text entity), ("chain", HopName.listToItem chain),
      ("op", .text op.variantName), ("operand", operand.toItem)]) =
        some (.compare entity chain op operand) := by
  have hnodup : ["entity", "chain", "op", "operand"].Nodup := by decide
  have hfields := @toFields?_record [("entity", .text entity),
    ("chain", HopName.listToItem chain), ("op", .text op.variantName),
    ("operand", operand.toItem)] hnodup
  simp only [List.map_cons, List.map_nil] at hfields
  simp only [compareOf?, hfields, HopName.listOfItem?_listToItem, RelOp.ofItem?_variantName,
    operand.ofItem?_toItem]
  rfl

/-- A test comes back from its fields if the filter inside does. -/
theorem existenceOf?_record {inner : Item → Option Outline} {sub : Outline}
    (hsub : inner sub.toItem = some sub) (entity : String) (chain : List HopName)
    (negated : Bool) :
    existenceOf? inner (record [("entity", .text entity), ("chain", HopName.listToItem chain),
      ("negated", .bool negated), ("sub", sub.toItem)]) =
        some (.existence entity chain negated sub) := by
  have hnodup : ["entity", "chain", "negated", "sub"].Nodup := by decide
  have hfields := @toFields?_record [("entity", .text entity),
    ("chain", HopName.listToItem chain), ("negated", .bool negated), ("sub", sub.toItem)] hnodup
  simp only [List.map_cons, List.map_nil] at hfields
  simp only [existenceOf?, hfields, HopName.listOfItem?_listToItem, hsub]
  rfl

/-- A junction comes back from the array of its operands if each of them does. -/
theorem junctionOf?_array {inner : Item → Option Outline} {operands : List Outline}
    (h : ∀ o ∈ operands, inner o.toItem = some o) (kind : Junction) :
    junctionOf? inner kind (.array (operands.map toItem)) = some (.junction kind operands) := by
  have hall : (operands.map toItem).mapM inner = some operands := mapM_map h
  show ((operands.map toItem).mapM inner).bind (fun os => some (junction kind os)) = _
  rw [hall]
  rfl

/-- An outline comes back from its item, if the levels suffice. -/
theorem ofItemWithin?_toItem {levels : Nat} {o : Outline} (h : o.toItem.nesting ≤ levels) :
    ofItemWithin? levels o.toItem = some o := by
  induction o generalizing levels with
  | opened entity =>
    obtain ⟨levels, rfl⟩ := Nat.exists_eq_add_of_le' (Nat.le_trans (two_le_nesting _) h)
    rw [toItem, ofItemWithin?, toVariant?_variant (rfl : variantNames.idxOf? "Open" = some 0)]
    rfl
  | closed entity =>
    obtain ⟨levels, rfl⟩ := Nat.exists_eq_add_of_le' (Nat.le_trans (two_le_nesting _) h)
    rw [toItem, ofItemWithin?, toVariant?_variant (rfl : variantNames.idxOf? "Closed" = some 1)]
    rfl
  | compare entity chain op operand =>
    obtain ⟨levels, rfl⟩ := Nat.exists_eq_add_of_le' (Nat.le_trans (two_le_nesting _) h)
    rw [toItem, ofItemWithin?, toVariant?_variant (rfl : variantNames.idxOf? "Property" = some 2)]
    exact compareOf?_record entity chain op operand
  | existence entity chain negated sub ih =>
    -- the variant and its record take two levels, and the filter inside the others
    rw [nesting_existence] at h
    obtain ⟨levels, rfl⟩ := Nat.exists_eq_add_of_le' (Nat.le_trans (Nat.le_add_left 2 _) h)
    have hsub : ofItemWithin? (levels + 1) sub.toItem = some sub := ih (by omega)
    rw [toItem, ofItemWithin?, toVariant?_variant (rfl : variantNames.idxOf? "Exists" = some 3)]
    exact existenceOf?_record hsub entity chain negated
  | junction kind operands ih =>
    rw [nesting_junction] at h
    obtain ⟨levels, rfl⟩ := Nat.exists_eq_add_of_le' (Nat.le_trans (Nat.le_add_left 2 _) h)
    have hall : ∀ o ∈ operands, ofItemWithin? (levels + 1) o.toItem = some o := by
      intro o ho
      have hle : nestingAll (operands.map toItem) ≤ levels := by omega
      exact ih o ho (Nat.le_succ_of_le (nestingAll_map_le.1 hle o ho))
    rw [toItem, ofItemWithin?]
    cases kind with
    | and =>
      rw [toVariant?_variant (rfl : variantNames.idxOf? Junction.and.variantName = some 4)]
      exact junctionOf?_array hall .and
    | or =>
      rw [toVariant?_variant (rfl : variantNames.idxOf? Junction.or.variantName = some 5)]
      exact junctionOf?_array hall .or

end Outline

/-! ## Payloads -/

namespace Wire

variable {α : Type}

/-- What an item stands for comes back from the bytes of the item, unless it nests too deep. -/
theorem decodeAs_encode {ofItem? : Item → Option α} {it : Item} {a : α} (hit : it.Regular)
    (hsize : it.encode.length ≤ payloadLimit)
    (ha : it.nesting ≤ nestingLimit → ofItem? it = some a) :
    decodeAs ofItem? it.encode =
      if it.nesting ≤ nestingLimit then .ok a else .error (.wire .unreadable) := by
  have hlimit : payloadLimit < UInt64.size := by decide
  have hlen : it.encode.length < UInt64.size := Nat.lt_of_le_of_lt hsize hlimit
  rw [decodeAs, if_neg (Nat.not_lt.2 hsize), Item.decode?_encode hit hlen]
  by_cases hle : it.nesting ≤ nestingLimit
  · rw [if_pos hle, if_pos hle, Option.bind_some, ha hle]
  · rw [if_neg hle, if_neg hle, Option.bind_none]

end Wire

end RowFilter
