import RowFilter.Proofs.Heads
import RowFilter.Proofs.Exactness

/-!
# Items that come back from their bytes

Reading follows writing item by item, with the bytes behind the item carried along. What can go
wrong is the nesting alone: an item comes back if its arrays, maps and tags stand no deeper in
each other than the reader has levels left, and is refused otherwise.
-/

namespace RowFilter.Wire

open RowFilter.Number

namespace Item

variable {it : Item} {rest : List UInt8}

/-! ## Structure -/

/-- No items stand in the item. -/
def isLeaf : Item → Bool
  | array _ => false
  | map _ _ => false
  | tagged _ _ => false
  | _ => true

/-- Induction over the items within. -/
@[elab_as_elim, induction_eliminator]
theorem induct {motive : Item → Prop} (leaf : ∀ it, it.isLeaf = true → motive it)
    (array : ∀ items, (∀ it ∈ items, motive it) → motive (.array items))
    (map : ∀ single entries, (∀ e ∈ entries, motive e.1 ∧ motive e.2) →
      motive (.map single entries))
    (tagged : ∀ tag it, motive it → motive (.tagged tag it)) (it : Item) : motive it :=
  @Item.rec motive (fun items => ∀ it ∈ items, motive it)
    (fun entries => ∀ e ∈ entries, motive e.1 ∧ motive e.2) (fun e => motive e.1 ∧ motive e.2)
    (fun _ => leaf _ rfl) (fun _ => leaf _ rfl) (fun _ => leaf _ rfl) (fun _ => leaf _ rfl)
    array map tagged (fun _ => leaf _ rfl) (leaf _ rfl) (leaf _ rfl) (fun _ => leaf _ rfl)
    (fun _ h => nomatch h) (fun _ _ hhead htail => List.forall_mem_cons.2 ⟨hhead, htail⟩)
    (fun _ h => nomatch h) (fun _ _ hhead htail => List.forall_mem_cons.2 ⟨hhead, htail⟩)
    (fun _ _ hkey hcontent => ⟨hkey, hcontent⟩) it

mutual

/-- How many arrays, maps and tags stand in each other at most. -/
def nesting : Item → Nat
  | array items => nestingAll items + 1
  | map _ entries => nestingEntries entries + 1
  | tagged _ item => item.nesting + 1
  | _ => 0

/-- The greatest nesting of an item. -/
def nestingAll : List Item → Nat
  | [] => 0
  | item :: items => max item.nesting (nestingAll items)

/-- The greatest nesting of a key or a content. -/
def nestingEntries : List (Item × Item) → Nat
  | [] => 0
  | (key, content) :: entries => max (max key.nesting content.nesting) (nestingEntries entries)

end

mutual

/-- Every map in the item knows whether it has one entry. -/
def Regular : Item → Prop
  | array items => RegularAll items
  | map single entries => single = (entries.length == 1) ∧ RegularEntries entries
  | tagged _ item => item.Regular
  | _ => True

/-- The items are regular. -/
def RegularAll : List Item → Prop
  | [] => True
  | item :: items => item.Regular ∧ RegularAll items

/-- The keys and contents are regular. -/
def RegularEntries : List (Item × Item) → Prop
  | [] => True
  | (key, content) :: entries => (key.Regular ∧ content.Regular) ∧ RegularEntries entries

end

/-- What has no items inside nests nothing. -/
theorem nesting_of_isLeaf (h : it.isLeaf = true) : it.nesting = 0 := by
  cases it <;> first | rfl | exact nomatch h

/-- Items nest within the room if each of them does. -/
theorem nestingAll_le {items : List Item} {room : Nat} :
    nestingAll items ≤ room ↔ ∀ it ∈ items, it.nesting ≤ room := by
  induction items with
  | nil => simp [nestingAll]
  | cons it items ih => simp [nestingAll, ih]

/-- Pieces of a list nest side by side. -/
theorem nestingAll_append (front back : List Item) :
    nestingAll (front ++ back) = max (nestingAll front) (nestingAll back) := by
  induction front with
  | nil => simp [nestingAll]
  | cons it front ih => rw [List.cons_append, nestingAll, nestingAll, ih, Nat.max_assoc]

/-- Entries nest within the room if their keys and contents do. -/
theorem nestingEntries_le {entries : List (Item × Item)} {room : Nat} :
    nestingEntries entries ≤ room ↔ ∀ e ∈ entries, e.1.nesting ≤ room ∧ e.2.nesting ≤ room := by
  induction entries with
  | nil => simp [nestingEntries]
  | cons e entries ih => rw [nestingEntries, max_le_iff, max_le_iff, ih, List.forall_mem_cons]

/-- A list is regular item by item. -/
theorem regularAll_iff {items : List Item} : RegularAll items ↔ ∀ it ∈ items, it.Regular := by
  induction items with
  | nil => simp [RegularAll]
  | cons it items ih => simp [RegularAll, ih]

theorem regularEntries_iff {entries : List (Item × Item)} :
    RegularEntries entries ↔ ∀ e ∈ entries, e.1.Regular ∧ e.2.Regular := by
  induction entries with
  | nil => simp [RegularEntries]
  | cons e entries ih => rw [RegularEntries, ih, List.forall_mem_cons]

theorem nestingAll_map_le {α : Type} {w : α → Item} {as : List α} {room : Nat} :
    nestingAll (as.map w) ≤ room ↔ ∀ a ∈ as, (w a).nesting ≤ room := by
  rw [nestingAll_le, List.forall_mem_map]

theorem regular_array_map {α : Type} {w : α → Item} {as : List α} :
    (array (as.map w)).Regular ↔ ∀ a ∈ as, (w a).Regular := by
  rw [Regular, regularAll_iff, List.forall_mem_map]

/-! ## Lengths -/

/-- The bytes of a key and its content. -/
def entryOnto (rest : List UInt8) (e : Item × Item) : List UInt8 :=
  e.1.bytesOnto (e.2.bytesOnto rest)

/-- The bytes of the items stand one after the other in front of the rest. -/
theorem itemsOnto_eq_foldr (rest : List UInt8) (items : List Item) :
    itemsOnto rest items = items.foldr (fun it behind => it.bytesOnto behind) rest := by
  induction items with
  | nil => rfl
  | cons it items ih => rw [itemsOnto, ih, List.foldr_cons]

theorem entriesOnto_eq_foldr (rest : List UInt8) (entries : List (Item × Item)) :
    entriesOnto rest entries = entries.foldr (fun e behind => entryOnto behind e) rest := by
  induction entries with
  | nil => rfl
  | cons e entries ih => rw [entriesOnto, ih, List.foldr_cons, entryOnto]

/-- Things written one after the other take a byte each at least. -/
theorem length_foldr_onto {α : Type} {onto : List UInt8 → α → List UInt8} (as : List α)
    (honto : ∀ a ∈ as, ∀ rest, rest.length < (onto rest a).length) (rest : List UInt8) :
    as.length + rest.length ≤ (as.foldr (fun a behind => onto behind a) rest).length := by
  induction as with
  | nil => simp
  | cons a as ih =>
    have hfirst := honto a List.mem_cons_self (as.foldr (fun a behind => onto behind a) rest)
    have hrest := ih fun b hb => honto b (List.mem_cons_of_mem _ hb)
    rw [List.length_cons, List.foldr_cons]
    omega

/-- The formats that numbers travel in, with the low five bits of their heads and their widths
in bytes. -/
def floatForms : List (Format × Nat × Nat) :=
  [(.half, 25, 2), (.single, 26, 4), (.double, 27, 8)]

/-- A number is written in a form from which it is read back. -/
theorem floatBytes_cases (x : Binary64) :
    ∃ f info width bits, (f, info, width) ∈ floatForms ∧ bits < 256 ^ width ∧
      floatOf f bits = some x ∧ floatBytes x = headByte 7 info :: bigEndian width bits := by
  unfold floatBytes
  cases hhalf : Format.half.pack? x.toScaled with
  | some bits =>
    have hlt : bits < 256 ^ 2 := Format.pack?_lt (by decide) hhalf
    exact ⟨.half, 25, 2, bits, by decide, hlt, Binary64.floatOf_of_pack? (by decide) hhalf, rfl⟩
  | none =>
    cases hsingle : Format.single.pack? x.toScaled with
    | some bits =>
      have hlt : bits < 256 ^ 4 := Format.pack?_lt (by decide) hsingle
      exact ⟨.single, 26, 4, bits, by decide, hlt, Binary64.floatOf_of_pack? (by decide) hsingle,
        rfl⟩
    | none =>
      have hlt : x.bits.toNat < 256 ^ 8 := x.bits.toNat_lt
      exact ⟨.double, 27, 8, x.bits.toNat, by decide, hlt, x.floatOf_bits, rfl⟩

/-- An item takes a byte at least. -/
theorem length_bytesOnto (it : Item) (rest : List UInt8) :
    rest.length < (it.bytesOnto rest).length := by
  induction it generalizing rest with
  | leaf it hleaf =>
    cases it with
    | array | map | tagged => cases hleaf
    | unsigned n => exact length_lt_headBytes_append 0 n.toNat rest
    | negative n => exact length_lt_headBytes_append 1 n.toNat rest
    | bytes bs =>
      have hle : rest.length ≤ (bs ++ rest).length := by simp
      exact Nat.lt_of_le_of_lt hle (length_lt_headBytes_append 2 bs.length _)
    | text s =>
      have hle : rest.length ≤ (utf8 s ++ rest).length := by simp
      exact Nat.lt_of_le_of_lt hle (length_lt_headBytes_append 3 s.utf8ByteSize _)
    | bool | null | undefined => simp [bytesOnto]
    | float x =>
      cases x with
      | none =>
        simp only [bytesOnto, List.cons_append, List.length_cons, List.length_append]
        omega
      | some x =>
        obtain ⟨f, info, width, bits, -, -, -, hbytes⟩ := floatBytes_cases x
        rw [bytesOnto, hbytes, List.length_append, List.length_cons]
        omega
  | array items ih =>
    have hhead := length_lt_headBytes_append 4 items.length (itemsOnto rest items)
    have hitems := length_foldr_onto items ih rest
    rw [← itemsOnto_eq_foldr] at hitems
    rw [bytesOnto]
    omega
  | map single entries ih =>
    have hhead := length_lt_headBytes_append 5 entries.length (entriesOnto rest entries)
    have hentries := length_foldr_onto entries
      (fun e he rest => Nat.lt_trans ((ih e he).2 rest) ((ih e he).1 _)) rest
    have hrun := entriesOnto_eq_foldr rest entries
    unfold entryOnto at hrun
    rw [← hrun] at hentries
    rw [bytesOnto]
    omega
  | tagged tag it ih =>
    exact Nat.lt_trans (ih rest) (length_lt_headBytes_append 6 tag.toNat (it.bytesOnto rest))

theorem length_entryOnto (e : Item × Item) (rest : List UInt8) :
    rest.length < (entryOnto rest e).length :=
  Nat.lt_trans (e.2.length_bytesOnto rest) (e.1.length_bytesOnto _)

/-- Each item takes a byte at least, so that counts never exceed what is left to read. -/
theorem length_itemsOnto (items : List Item) (rest : List UInt8) :
    items.length + rest.length ≤ (itemsOnto rest items).length := by
  rw [itemsOnto_eq_foldr]
  exact length_foldr_onto items (fun it _ => it.length_bytesOnto) rest

theorem length_entriesOnto (entries : List (Item × Item)) (rest : List UInt8) :
    entries.length + rest.length ≤ (entriesOnto rest entries).length := by
  rw [entriesOnto_eq_foldr]
  exact length_foldr_onto entries (fun e _ => length_entryOnto e) rest

end Item

/-! ## Reading -/

/-- What was read is `a`, with `rest` left, if the condition holds, and nothing otherwise. -/
def ReadsIf {α : Type} {input : List UInt8} (result : Option (Reading α input)) (ok : Prop)
    (a : α) (rest : List UInt8) : Prop :=
  (ok → ∃ h, result = some ⟨a, rest, h⟩) ∧ (¬ok → result = none)

variable {α : Type} {input rest : List UInt8}

theorem ReadsIf.congr {result : Option (Reading α input)} {p q : Prop} {a : α}
    (h : ReadsIf result p a rest) (hpq : p ↔ q) : ReadsIf result q a rest :=
  ⟨fun hq => h.1 (hpq.2 hq), fun hq => h.2 fun hp => hq (hpq.1 hp)⟩

theorem ReadsIf.map {β : Type} {result : Option (Reading α input)} {ok : Prop} {a : α}
    (h : ReadsIf result ok a rest) (g : α → β) :
    ReadsIf (result.map fun r => r.map g) ok (g a) rest := by
  constructor
  · intro hok
    obtain ⟨h', heq⟩ := h.1 hok
    exact ⟨h', by rw [heq]; rfl⟩
  · intro hok
    rw [h.2 hok]
    rfl

/-- Bytes that were read in front do not change what is read behind them. -/
theorem ReadsIf.ofLonger {result : Option (Reading α rest)} {ok : Prop} {a : α}
    {behind : List UInt8} (h : ReadsIf result ok a behind) (hlt : rest.length < input.length) :
    ReadsIf (result.map fun r => r.ofLonger hlt) ok a behind := by
  constructor
  · intro hok
    obtain ⟨h', heq⟩ := h.1 hok
    exact ⟨Nat.lt_trans h' hlt, by rw [heq]; rfl⟩
  · intro hok
    rw [h.2 hok]
    rfl

/-- Things written one after the other are read one after the other, up to the first that is
refused. -/
theorem readsIf_countedFrom {one : ByteReader α} {onto : List UInt8 → α → List UInt8}
    {ok : α → Prop} {as : List α} (honto : ∀ a ∈ as, ∀ rest, rest.length < (onto rest a).length)
    (hone : ∀ a ∈ as, ∀ rest, (onto rest a).length < UInt64.size →
      ReadsIf (one (onto rest a)) (ok a) a rest)
    (hlen : (as.foldr (fun a behind => onto behind a) rest).length < UInt64.size)
    (read : List α)
    (h : (as.foldr (fun a behind => onto behind a) rest).length < input.length) :
    ReadsIf (countedFrom one read as.length (as.foldr (fun a behind => onto behind a) rest) h)
      (∀ a ∈ as, ok a) (read.reverse ++ as) rest := by
  induction as generalizing read with
  | nil =>
    have hall : ∀ a ∈ ([] : List α), ok a := by simp
    exact ⟨fun _ => ⟨h, by simp [countedFrom]⟩, fun hok => absurd hall hok⟩
  | cons a as ih =>
    set behind := as.foldr (fun a behind => onto behind a) rest
    have hshorter : behind.length < (onto behind a).length := honto a List.mem_cons_self behind
    obtain ⟨hsome, hnone⟩ := hone a List.mem_cons_self behind hlen
    have hfront : (onto behind a).length < input.length := h
    show ReadsIf (countedFrom one read (as.length + 1) (onto behind a) hfront) _ _ _
    rw [List.forall_mem_cons]
    by_cases ha : ok a
    · obtain ⟨h', hread⟩ := hsome ha
      have hrest := ih (fun b hb => honto b (List.mem_cons_of_mem _ hb))
        (fun b hb => hone b (List.mem_cons_of_mem _ hb)) (Nat.lt_trans hshorter hlen) (a :: read)
        (Nat.lt_trans hshorter h)
      rw [List.reverse_cons, List.append_assoc, List.singleton_append] at hrest
      rw [countedFrom_of_some hread]
      exact hrest.congr (and_iff_right ha).symm
    · refine ⟨fun hok => absurd hok.1 ha, fun _ => ?_⟩
      exact countedFrom_of_none (hnone ha)

namespace Item

variable {it : Item} (inner : Option (ByteReader Item))

/-! ### Items without items -/

/-- A number is read from its head alone. -/
theorem itemOver_unsigned (n : UInt64) (rest : List UInt8) :
    ∃ h, itemOver inner ((unsigned n).bytesOnto rest) = some ⟨unsigned n, rest, h⟩ := by
  obtain ⟨info, h, hhead, hinfo, -⟩ := head_headBytes (by decide : 0 < 8) n.toNat_lt rest
  refine ⟨h, ?_⟩
  simp [itemOver, bytesOnto, hhead, hinfo, Reading.map]

theorem itemOver_negative (n : UInt64) (rest : List UInt8) :
    ∃ h, itemOver inner ((negative n).bytesOnto rest) = some ⟨negative n, rest, h⟩ := by
  obtain ⟨info, h, hhead, hinfo, -⟩ := head_headBytes (by decide : 1 < 8) n.toNat_lt rest
  refine ⟨h, ?_⟩
  simp [itemOver, bytesOnto, hhead, hinfo, Reading.map]

/-- Bytes are read by the length in their head. -/
theorem itemOver_bytes {bs : List UInt8} (hlen : bs.length < UInt64.size) (rest : List UInt8) :
    ∃ h, itemOver inner ((bytes bs).bytesOnto rest) = some ⟨bytes bs, rest, h⟩ := by
  obtain ⟨info, h, hhead, hinfo, -⟩ := head_headBytes (by decide : 2 < 8) hlen (bs ++ rest)
  obtain ⟨h', htake⟩ := takeFrom_exact rfl h
  refine ⟨h', ?_⟩
  simp [itemOver, bytesOnto, hhead, hinfo, stringContent, htake, Reading.map]

/-- A text is read by its length, and its bytes are those of characters. -/
theorem itemOver_text {s : String} (hlen : s.utf8ByteSize < UInt64.size) (rest : List UInt8) :
    ∃ h, itemOver inner ((text s).bytesOnto rest) = some ⟨text s, rest, h⟩ := by
  obtain ⟨info, h, hhead, hinfo, -⟩ := head_headBytes (by decide : 3 < 8) hlen (utf8 s ++ rest)
  obtain ⟨h', htake⟩ := takeFrom_exact (length_utf8 s) h
  refine ⟨h', ?_⟩
  simp [itemOver, bytesOnto, hhead, hinfo, stringContent, htake, text?_utf8, Reading.map]

/-- A simple value is its head. -/
theorem itemOver_simple {info : Nat} (hinfo : info < 24)
    (hsimple : simple? ⟨7, info, info⟩ = some it) (rest : List UInt8) :
    ∃ h, itemOver inner (headByte 7 info :: rest) = some ⟨it, rest, h⟩ := by
  obtain ⟨h, hhead⟩ := head_narrow (by decide : 7 < 8) hinfo rest
  exact ⟨h, by simp [itemOver, hhead, hsimple, Reading.map]⟩

/-- A number in one of the three formats. -/
theorem itemOver_bits {f : Format} {info width bits : Nat}
    (hform : (f, info, width) ∈ floatForms) (hbits : bits < 256 ^ width) (rest : List UInt8) :
    ∃ h, itemOver inner (headByte 7 info :: (bigEndian width bits ++ rest)) =
      some ⟨float (floatOf f bits), rest, h⟩ := by
  have hkind : (info, width) ∈ argumentWidths ∧
      simple? ⟨7, info, bits⟩ = some (float (floatOf f bits)) := by
    simp only [floatForms, List.mem_cons, Prod.mk.injEq, List.not_mem_nil, or_false] at hform
    rcases hform with ⟨rfl, rfl, rfl⟩ | ⟨rfl, rfl, rfl⟩ | ⟨rfl, rfl, rfl⟩
    all_goals exact ⟨by decide, rfl⟩
  obtain ⟨h, hhead⟩ := head_wide (by decide : 7 < 8) hkind.1 hbits rest
  exact ⟨h, by simp [itemOver, hhead, hkind.2, Reading.map]⟩

/-- A double is read from its bits, and what is no number as no number. -/
theorem itemOver_float (x : Option Binary64) (rest : List UInt8) :
    ∃ h, itemOver inner ((float x).bytesOnto rest) = some ⟨float x, rest, h⟩ := by
  cases x with
  | none =>
    have hnone : floatOf .half 0x7e00 = none := by decide +kernel
    rw [← hnone]
    exact itemOver_bits inner (by decide : (.half, 25, 2) ∈ floatForms) (by decide) rest
  | some x =>
    obtain ⟨f, info, width, bits, hform, hlt, hx, hbytes⟩ := floatBytes_cases x
    rw [bytesOnto, hbytes, ← hx]
    exact itemOver_bits inner hform hlt rest

/-- An item without items comes back, whatever the reader has left. -/
theorem itemOver_leaf (hleaf : it.isLeaf = true) {rest : List UInt8}
    (hlen : (it.bytesOnto rest).length < UInt64.size) :
    ∃ h, itemOver inner (it.bytesOnto rest) = some ⟨it, rest, h⟩ := by
  cases it with
  | array | map | tagged => cases hleaf
  | unsigned n => exact itemOver_unsigned inner n rest
  | negative n => exact itemOver_negative inner n rest
  | bytes bs =>
    refine itemOver_bytes inner (Nat.lt_of_le_of_lt ?_ hlen) rest
    simp only [bytesOnto, List.length_append]
    omega
  | text s =>
    refine itemOver_text inner (Nat.lt_of_le_of_lt ?_ hlen) rest
    simp only [bytesOnto, List.length_append, length_utf8]
    omega
  | bool b =>
    cases b with
    | false => exact itemOver_simple inner (by decide : 20 < 24) rfl rest
    | true => exact itemOver_simple inner (by decide : 21 < 24) rfl rest
  | null => exact itemOver_simple inner (by decide : 22 < 24) rfl rest
  | undefined => exact itemOver_simple inner (by decide : 23 < 24) rfl rest
  | float x => exact itemOver_float inner x rest

/-! ### Items with items -/

/-- Items in an array are read one level deeper, as many as the head says. -/
theorem itemOver_array {items : List Item} (hlen : items.length < UInt64.size)
    (rest : List UInt8) :
    ∃ h : (itemsOnto rest items).length < ((array items).bytesOnto rest).length,
      ∀ inner, itemOver inner ((array items).bytesOnto rest) = inner.bind fun one =>
        (countedFrom one [] items.length (itemsOnto rest items) h).map fun r => r.map array := by
  obtain ⟨info, h, hhead, hinfo, -⟩ :=
    head_headBytes (by decide : 4 < 8) hlen (itemsOnto rest items)
  refine ⟨h, ?_⟩
  intro inner
  cases inner with
  | none => simp [itemOver, bytesOnto, hhead]
  | some one =>
    simp only [itemOver, bytesOnto, hhead, Option.bind_eq_bind, Option.bind_some, runContent,
      if_neg hinfo]
    cases countedFrom one [] items.length (itemsOnto rest items) h <;> rfl

theorem itemOver_map {entries : List (Item × Item)} (hlen : entries.length < UInt64.size)
    (rest : List UInt8) :
    ∃ h : (entriesOnto rest entries).length <
        ((map (entries.length == 1) entries).bytesOnto rest).length,
      ∀ inner, itemOver inner ((map (entries.length == 1) entries).bytesOnto rest) =
        inner.bind fun one =>
          (countedFrom (entry one) [] entries.length (entriesOnto rest entries) h).map fun r =>
            r.map (map (entries.length == 1)) := by
  obtain ⟨info, h, hhead, hinfo, hone⟩ :=
    head_headBytes (by decide : 5 < 8) hlen (entriesOnto rest entries)
  have hsingle : (info == 1) = (entries.length == 1) := by
    rw [Bool.eq_iff_iff, beq_iff_eq, beq_iff_eq, hone]
  refine ⟨h, ?_⟩
  intro inner
  cases inner with
  | none => simp [itemOver, bytesOnto, hhead]
  | some one =>
    simp only [itemOver, bytesOnto, hhead, Option.bind_eq_bind, Option.bind_some, runContent,
      if_neg hinfo, hsingle]
    cases countedFrom (entry one) [] entries.length (entriesOnto rest entries) h <;> rfl

/-- A tag is read, and the item behind it one level deeper. -/
theorem itemOver_tagged (tag : UInt64) (it : Item) (rest : List UInt8) :
    ∃ h : (it.bytesOnto rest).length < ((tagged tag it).bytesOnto rest).length,
      ∀ inner, itemOver inner ((tagged tag it).bytesOnto rest) = inner.bind fun one =>
        ((one (it.bytesOnto rest)).map fun r => r.map (tagged tag)).map fun r =>
          r.ofLonger h := by
  obtain ⟨info, h, hhead, hinfo, -⟩ :=
    head_headBytes (by decide : 6 < 8) tag.toNat_lt (it.bytesOnto rest)
  refine ⟨h, ?_⟩
  intro inner
  cases inner with
  | none => simp [itemOver, bytesOnto, hhead]
  | some one =>
    simp only [itemOver, bytesOnto, hhead, Option.bind_eq_bind, Option.bind_some, if_neg hinfo,
      UInt64.ofNat_toNat]
    cases one (it.bytesOnto rest) <;> rfl

/-! ### All items -/

/-- An entry is read if its key and its content are. -/
theorem readsIf_entry {one : ByteReader Item} {e : Item × Item} {p q : Prop} {rest : List UInt8}
    (hkey : ReadsIf (one (entryOnto rest e)) p e.1 (e.2.bytesOnto rest))
    (hcontent : ReadsIf (one (e.2.bytesOnto rest)) q e.2 rest) :
    ReadsIf (entry one (entryOnto rest e)) (p ∧ q) e rest := by
  constructor
  · rintro ⟨hp, hq⟩
    obtain ⟨h, hread⟩ := hkey.1 hp
    obtain ⟨h', hread'⟩ := hcontent.1 hq
    exact ⟨Nat.lt_trans h' h, by simp [entry, hread, hread']⟩
  · intro hnot
    by_cases hp : p
    · obtain ⟨h, hread⟩ := hkey.1 hp
      have hnone := hcontent.2 fun hq => hnot ⟨hp, hq⟩
      simp [entry, hread, hnone]
    · simp [entry, hkey.2 hp]

variable {one : ByteReader Item} {room : Nat} {input rest : List UInt8}

/-- Items are read one by one if each nests within the room. -/
theorem readsIf_items {items : List Item}
    (hone : ∀ it ∈ items, ∀ rest, (it.bytesOnto rest).length < UInt64.size →
      ReadsIf (one (it.bytesOnto rest)) (it.nesting ≤ room) it rest)
    (hlen : (itemsOnto rest items).length < UInt64.size)
    (h : (itemsOnto rest items).length < input.length) :
    ReadsIf (countedFrom one [] items.length (itemsOnto rest items) h)
      (nestingAll items ≤ room) items rest := by
  revert hlen h
  rw [itemsOnto_eq_foldr]
  intro hlen h
  have hrun := readsIf_countedFrom (fun it _ => it.length_bytesOnto) hone hlen [] h
  exact hrun.congr nestingAll_le.symm

/-- So are the entries of a map. -/
theorem readsIf_entries {entries : List (Item × Item)}
    (hone : ∀ e ∈ entries, ∀ rest, (entryOnto rest e).length < UInt64.size →
      ReadsIf (entry one (entryOnto rest e)) (e.1.nesting ≤ room ∧ e.2.nesting ≤ room) e rest)
    (hlen : (entriesOnto rest entries).length < UInt64.size)
    (h : (entriesOnto rest entries).length < input.length) :
    ReadsIf (countedFrom (entry one) [] entries.length (entriesOnto rest entries) h)
      (nestingEntries entries ≤ room) entries rest := by
  revert hlen h
  rw [entriesOnto_eq_foldr]
  intro hlen h
  have hrun := readsIf_countedFrom (fun e _ => length_entryOnto e) hone hlen [] h
  exact hrun.congr nestingEntries_le.symm

/-- What asks for the reader one level further in takes a level more than it does there. -/
theorem readsIf_within {bytes : List UInt8}
    {content : ByteReader Item → Option (Reading Item bytes)} {depth : Nat} {it : Item}
    (hread : ∀ inner, itemOver inner bytes = inner.bind content)
    (hcontent : ∀ room, ReadsIf (content (item room)) (depth ≤ room) it rest) :
    ReadsIf (item room bytes) (depth + 1 ≤ room) it rest := by
  cases room with
  | zero =>
    have hnone : item 0 bytes = none := hread none
    exact ⟨fun hle => by omega, fun _ => hnone⟩
  | succ room =>
    have hsome : item (room + 1) bytes = content (item room) := hread (some (item room))
    rw [hsome]
    exact (hcontent room).congr Nat.add_le_add_iff_right.symm

/-- A reader of items that has `room` levels left takes an item in front of any bytes exactly if
the item nests no deeper. -/
theorem readsIf_item {it : Item} (hit : it.Regular) (room : Nat) {rest : List UInt8}
    (hlen : (it.bytesOnto rest).length < UInt64.size) :
    ReadsIf (item room (it.bytesOnto rest)) (it.nesting ≤ room) it rest := by
  induction it generalizing room rest with
  | leaf it hleaf =>
    have hread : ∃ h, item room (it.bytesOnto rest) = some ⟨it, rest, h⟩ := by
      cases room with
      | zero => exact itemOver_leaf none hleaf hlen
      | succ room => exact itemOver_leaf (some (item room)) hleaf hlen
    refine ⟨fun _ => hread, fun hnot => absurd ?_ hnot⟩
    rw [nesting_of_isLeaf hleaf]
    exact Nat.zero_le room
  | array items ih =>
    have hregular := regularAll_iff.1 hit
    have hbehind : (itemsOnto rest items).length < UInt64.size :=
      Nat.lt_trans (length_lt_headBytes_append 4 items.length _) hlen
    -- each item takes a byte at least, so a head that counts bytes can count the items
    have hcount := length_itemsOnto items rest
    obtain ⟨h, hread⟩ := itemOver_array (by omega : items.length < UInt64.size) rest
    apply readsIf_within hread
    intro room
    apply ReadsIf.map
    exact readsIf_items (fun it hmem rest => ih it hmem (hregular it hmem) room) hbehind h
  | map single entries ih =>
    obtain ⟨rfl, hregular⟩ := hit
    rw [regularEntries_iff] at hregular
    have hbehind : (entriesOnto rest entries).length < UInt64.size :=
      Nat.lt_trans (length_lt_headBytes_append 5 entries.length _) hlen
    have hcount := length_entriesOnto entries rest
    obtain ⟨h, hread⟩ := itemOver_map (by omega : entries.length < UInt64.size) rest
    apply readsIf_within hread
    intro room
    apply ReadsIf.map
    refine readsIf_entries ?_ hbehind h
    intro e he rest hlen
    have hcontent : (e.2.bytesOnto rest).length < UInt64.size :=
      Nat.lt_trans (e.1.length_bytesOnto _) hlen
    have hkey := (ih e he).1 (hregular e he).1 room hlen
    exact readsIf_entry hkey ((ih e he).2 (hregular e he).2 room hcontent)
  | tagged tag it ih =>
    have hbehind : (it.bytesOnto rest).length < UInt64.size :=
      Nat.lt_trans (length_lt_headBytes_append 6 tag.toNat _) hlen
    obtain ⟨h, hread⟩ := itemOver_tagged tag it rest
    apply readsIf_within hread
    intro room
    exact ((ih hit room hbehind).map (tagged tag)).ofLonger h

/-- The bytes of an item encode that item, if it nests no deeper than items may, and otherwise
nothing. -/
theorem decode?_encode {it : Item} (hit : it.Regular) (hlen : it.encode.length < UInt64.size) :
    decode? it.encode = if it.nesting ≤ nestingLimit then some it else none := by
  obtain ⟨hsome, hnone⟩ := readsIf_item hit nestingLimit hlen
  unfold decode? encode
  by_cases hle : it.nesting ≤ nestingLimit
  · obtain ⟨h, hread⟩ := hsome hle
    rw [hread, if_pos hle]
    rfl
  · rw [hnone hle, if_neg hle]

end Item

end RowFilter.Wire
