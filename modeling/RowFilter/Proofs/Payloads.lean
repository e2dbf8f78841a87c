import RowFilter.Proofs.Records

/-!
# Payloads that come back

What travels is a list of values, the outline of a filter or the outline of a value set. Each is
read as what was written, whatever the values in it are: a payload that is not too long fails to
come back only by nesting too deep, and a list of values never does. Of the forms that an integer
or a number may have, each is read as the same item, so it makes no difference which of them was
the shortest and was written.
-/

namespace RowFilter

open RowFilter.Number RowFilter.Wire

/-! ## Scalars in all their forms -/

namespace Wire.Item

/-- Wherever the bytes stand, and however few levels are left there, they are read as the item. -/
def SpelledBy (it : Item) (bytes : List UInt8) : Prop :=
  ∀ room rest, ∃ h, item room (bytes ++ rest) = some ⟨it, rest, h⟩

/-- Bytes that are read as an item wherever they stand spell the item. -/
theorem spelledBy_of_itemOver {it : Item} {bytes : List UInt8}
    (h : ∀ inner rest, ∃ h, itemOver inner (bytes ++ rest) = some ⟨it, rest, h⟩) :
    it.SpelledBy bytes := by
  intro room rest
  cases room with
  | zero => exact h none rest
  | succ room => exact h (some (item room)) rest

variable {n : UInt64} {info width : Nat}

/-- An integer is read from every width that holds its argument. -/
theorem spelledBy_wide (hwidth : (info, width) ∈ argumentWidths) (hn : n.toNat < 256 ^ width) :
    (unsigned n).SpelledBy (headByte 0 info :: bigEndian width n.toNat) ∧
      (negative n).SpelledBy (headByte 1 info :: bigEndian width n.toNat) := by
  have hstated : info ≠ unstated := by
    have hinfo := argumentWidths_info hwidth
    unfold unstated
    omega
  constructor
  · refine spelledBy_of_itemOver fun inner rest => ?_
    obtain ⟨h, hhead⟩ := head_wide (by decide : 0 < 8) hwidth hn rest
    exact ⟨h, by simp [itemOver, hhead, hstated, Reading.map]⟩
  · refine spelledBy_of_itemOver fun inner rest => ?_
    obtain ⟨h, hhead⟩ := head_wide (by decide : 1 < 8) hwidth hn rest
    exact ⟨h, by simp [itemOver, hhead, hstated, Reading.map]⟩

/-- A number is read from every format that has it. -/
theorem spelledBy_format {f : Format} {x : Binary64} {bits : Nat}
    (hform : (f, info, width) ∈ floatForms) (hbits : f.pack? x.toScaled = some bits) :
    (float (some x)).SpelledBy (headByte 7 info :: bigEndian width bits) := by
  have hshape : 0 < f.exponentBits ∧ 1 + f.exponentBits + f.fractionBits = 8 * width := by
    simp only [floatForms, List.mem_cons, Prod.mk.injEq, List.not_mem_nil, or_false] at hform
    rcases hform with ⟨rfl, rfl, rfl⟩ | ⟨rfl, rfl, rfl⟩ | ⟨rfl, rfl, rfl⟩
    all_goals decide
  have hlt : bits < 256 ^ width := by
    have h := Format.pack?_lt hshape.1 hbits
    rwa [hshape.2, Nat.pow_mul] at h
  refine spelledBy_of_itemOver fun inner rest => ?_
  rw [← Binary64.floatOf_of_pack? hshape.1 hbits]
  exact itemOver_bits inner hform hlt rest

end Wire.Item

/-! ## Values -/

namespace Value

open Wire.Item

/-- A value nests two levels at most. -/
theorem nesting_le (v : Value) : v.toItem.nesting ≤ 2 := by
  rw [nesting_toItem]
  split <;> decide

/-- A list of values nests one level more. -/
theorem nesting_listToItem_le (values : List Value) : (listToItem values).nesting ≤ 3 := by
  rw [listToItem, nesting]
  exact Nat.succ_le_succ (nestingAll_map_le.2 fun v _ => v.nesting_le)

theorem regular_listToItem (values : List Value) : (listToItem values).Regular :=
  regular_array_map.2 fun v _ => v.regular_toItem

theorem listOfItem?_listToItem (values : List Value) :
    listOfItem? (listToItem values) = some values :=
  mapM_map fun v _ => v.ofItem?_toItem

/-- A value that may be missing nests no deeper than one that is there. -/
theorem nesting_optionToItem_le (v : Option Value) : (optionToItem v).nesting ≤ 2 := by
  cases v with
  | none => decide
  | some v => exact v.nesting_le

theorem regular_optionToItem (v : Option Value) : (optionToItem v).Regular := by
  cases v with
  | none => trivial
  | some v => exact v.regular_toItem

/-- A missing value comes back as missing, and null, which is written by name, as a value. -/
theorem optionOfItem?_optionToItem (v : Option Value) :
    optionOfItem? (optionToItem v) = some v := by
  cases v with
  | none => rfl
  | some v =>
    have hvalue : optionOfItem? v.toItem = (ofItem? v.toItem).map some := by
      cases v <;> rfl
    rw [optionToItem, hvalue, ofItem?_toItem]
    rfl

end Value

/-- An operand nests three levels at most. -/
theorem Operand.nesting_toItem_le (p : Operand) : p.toItem.nesting ≤ 3 := by
  rw [Operand.nesting_toItem]
  cases p with
  | unbound => exact Nat.zero_le 3
  | bound id => exact (by decide : 1 ≤ 3)
  | constant v => exact Nat.succ_le_succ v.nesting_le

/-! ## Outlines of value sets -/

namespace ValuesOutline

open Wire.Item

theorem regular_toItem (o : ValuesOutline) : o.toItem.Regular := by
  have hvalues : (array (o.values.map Value.optionToItem)).Regular :=
    regular_array_map.2 fun v _ => Value.regular_optionToItem v
  rw [toItem, regular_record]
  simp only [List.forall_mem_cons, List.not_mem_nil, false_implies, implies_true, and_true]
  exact ⟨o.filter.regular_toItem, hvalues⟩

/-- The filter stands one level further in. -/
theorem nesting_filter_lt (o : ValuesOutline) : o.filter.toItem.nesting < o.toItem.nesting := by
  rw [toItem, nesting_record]
  simp only [List.map_cons, nestingAll]
  omega

/-- An outline of values comes back if it nests within the limit. -/
theorem ofItem?_toItem {o : ValuesOutline} (h : o.toItem.nesting ≤ nestingLimit) :
    ofItem? o.toItem = some o := by
  have hfilter : Outline.ofItem? o.filter.toItem = some o.filter :=
    Outline.ofItemWithin?_toItem (Nat.le_trans o.nesting_filter_lt.le h)
  have hvalues : (o.values.map Value.optionToItem).mapM Value.optionOfItem? = some o.values :=
    mapM_map fun v _ => Value.optionOfItem?_optionToItem v
  have hnodup : ["filter", "values"].Nodup := by decide
  have hfields := @toFields?_record [("filter", o.filter.toItem),
    ("values", .array (o.values.map Value.optionToItem))] hnodup
  simp only [List.map_cons, List.map_nil] at hfields
  simp only [ofItem?, toItem, hfields, hfilter]
  show ((o.values.map Value.optionToItem).mapM Value.optionOfItem?).bind
    (fun values => some (⟨o.filter, values⟩ : ValuesOutline)) = _
  rw [hvalues]
  rfl

end ValuesOutline

/-! ## Payloads -/

namespace Wire

open Wire.Item

/-- What is read back from its item, at few enough levels, is written in bytes of its own. -/
theorem eq_of_encode_eq {α : Type} {toItem : α → Item} {ofItem? : Item → Option α}
    (hback : ∀ a, ofItem? (toItem a) = some a) (hregular : ∀ a, (toItem a).Regular)
    (hnesting : ∀ a, (toItem a).nesting ≤ nestingLimit) {a a' : α}
    (hsize : (toItem a).encode.length ≤ payloadLimit)
    (h : (toItem a).encode = (toItem a').encode) : a = a' := by
  have hread (b : α) (hb : (toItem b).encode.length ≤ payloadLimit) :
      decodeAs ofItem? (toItem b).encode = .ok b := by
    rw [decodeAs_encode (hregular b) hb fun _ => hback b, if_pos (hnesting b)]
  have ha := hread a hsize
  rw [h, hread a' (h ▸ hsize)] at ha
  exact (Except.ok.inj ha).symm

/-- Whatever is written in no more bytes than a payload may have comes back as it was: a list of
values always, the outline of a filter or of a value set if it nests no deeper than items may, and
otherwise it is unreadable. A missing value, null and any other value are written in different
bytes, and so are operands. An integer that has its argument in any width that holds it, or a
number in any format that has it, is read as the one item that is written in the shortest of
these forms. -/
theorem payloads_come_back :
    (∀ values : List Value, (Value.listToItem values).encode.length ≤ payloadLimit →
      decodeAs Value.listOfItem? (Value.listToItem values).encode = .ok values) ∧
    (∀ o : Outline, o.toItem.encode.length ≤ payloadLimit →
      decodeAs Outline.ofItem? o.toItem.encode =
        if o.toItem.nesting ≤ nestingLimit then .ok o else .error (.wire .unreadable)) ∧
    (∀ o : ValuesOutline, o.toItem.encode.length ≤ payloadLimit →
      decodeAs ValuesOutline.ofItem? o.toItem.encode =
        if o.toItem.nesting ≤ nestingLimit then .ok o else .error (.wire .unreadable)) ∧
    (∀ v v' : Option Value, (Value.optionToItem v).encode.length ≤ payloadLimit →
      (Value.optionToItem v).encode = (Value.optionToItem v').encode → v = v') ∧
    (∀ p p' : Operand, p.toItem.encode.length ≤ payloadLimit →
      p.toItem.encode = p'.toItem.encode → p = p') ∧
    (∀ (n : UInt64) (info width : Nat), (info, width) ∈ argumentWidths →
      n.toNat < 256 ^ width →
      (unsigned n).SpelledBy (headByte 0 info :: bigEndian width n.toNat) ∧
        (negative n).SpelledBy (headByte 1 info :: bigEndian width n.toNat)) ∧
    ∀ (x : Binary64) (f : Format) (info width bits : Nat), (f, info, width) ∈ floatForms →
      f.pack? x.toScaled = some bits →
      (float (some x)).SpelledBy (headByte 7 info :: bigEndian width bits) := by
  refine ⟨?values, ?outline, ?valuesOutline, ?option, ?operand, fun n info width => spelledBy_wide,
    fun x f info width bits => spelledBy_format⟩
  case values =>
    intro values hsize
    -- values nest so little that a list of them never comes near the limit
    have hnesting : (Value.listToItem values).nesting ≤ nestingLimit :=
      Nat.le_trans (Value.nesting_listToItem_le values) (by decide)
    rw [decodeAs_encode (Value.regular_listToItem values) hsize fun _ =>
      Value.listOfItem?_listToItem values, if_pos hnesting]
  case outline =>
    intro o hsize
    exact decodeAs_encode o.regular_toItem hsize Outline.ofItemWithin?_toItem
  case valuesOutline =>
    intro o hsize
    exact decodeAs_encode o.regular_toItem hsize ValuesOutline.ofItem?_toItem
  case option =>
    intro v v'
    exact eq_of_encode_eq Value.optionOfItem?_optionToItem Value.regular_optionToItem fun v =>
      Nat.le_trans (Value.nesting_optionToItem_le v) (by decide)
  case operand =>
    intro p p'
    exact eq_of_encode_eq Operand.ofItem?_toItem Operand.regular_toItem fun p =>
      Nat.le_trans (Operand.nesting_toItem_le p) (by decide)

/-! ### Edges -/

namespace Sample

/-- Integers at the edges of heads and of their ranges, numbers of each format, and one value of
each other kind. -/
def edges : List Value :=
  [.int Int64.minValue, .int (-257), .int (-25), .int (-24), .int 23, .int 24, .int Int64.maxValue,
    .uint 255, .uint 256, .uint 65535, .uint 65536, .uint 4294967295, .uint 4294967296,
    .uint 18446744073709551615, .float64 ⟨0x3ff8000000000000, by decide, by decide⟩,
    .float64 ⟨0x3ff0000020000000, by decide, by decide⟩,
    .float64 ⟨0x3fb999999999999a, by decide, by decide⟩, .float64 .zero, .blob [0, 24, 255],
    .bool true, .null, .text "null", .timestamp (-1)]

/-- A comparison with a parameter that has no number, one slot without a value, and null in the
other. -/
def blankAndNull : ValuesOutline :=
  ⟨.compare "order" [⟨"total", false⟩] .eq .unbound, [none, some .null]⟩

theorem toItem_blankAndNull :
    blankAndNull.filter.toItem = .variant "Property" (.record [("entity", .text "order"),
      ("chain", .array [.record [("property", .text "total"), ("outer", .bool false)]]),
      ("op", .text "Eq"), ("operand", .text "Unbound")]) := by
  rw [blankAndNull, Outline.toItem]
  rfl

theorem payloads_come_back_edges :
    decodeAs Value.listOfItem? (Value.listToItem edges).encode = .ok edges ∧
      decodeAs Outline.ofItem? blankAndNull.filter.toItem.encode = .ok blankAndNull.filter ∧
      decodeAs ValuesOutline.ofItem? blankAndNull.toItem.encode = .ok blankAndNull ∧
      (unsigned 0).SpelledBy (headByte 0 27 :: bigEndian 8 0) ∧
      (float (some .zero)).SpelledBy (headByte 7 26 :: bigEndian 4 0) := by
  obtain ⟨hvalues, houtline, hoverall, -, -, hwide, hformat⟩ := payloads_come_back
  have hfilter : blankAndNull.filter.toItem.encode.length ≤ payloadLimit ∧
      blankAndNull.filter.toItem.nesting ≤ nestingLimit := by
    rw [toItem_blankAndNull]
    decide +kernel
  have hwhole : blankAndNull.toItem.encode.length ≤ payloadLimit ∧
      blankAndNull.toItem.nesting ≤ nestingLimit := by
    rw [ValuesOutline.toItem, toItem_blankAndNull]
    decide +kernel
  refine ⟨hvalues edges (by decide +kernel), ?_, ?_, ?_, ?_⟩
  · rw [houtline blankAndNull.filter hfilter.1, if_pos hfilter.2]
  · rw [hoverall blankAndNull hwhole.1, if_pos hwhole.2]
  · exact (hwide 0 27 8 (by decide) (by decide)).1
  · exact hformat .zero .single 26 4 0 (by decide) (by decide +kernel)

end Sample

end Wire

end RowFilter
