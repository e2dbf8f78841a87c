import Mathlib.Algebra.Group.Nat.Defs
import RowFilter.Wire.Encode
import RowFilter.Wire.Decode

/-!
# Heads, strings and their readers

What is written in front of an item is read back whatever stands behind it: the digits of an
argument, the head in each of its widths, the bytes of a string of stated length, and the text
that they encode.
-/

namespace RowFilter.Wire

/-! ## Digits -/

@[simp] theorem length_bigEndian (width n : Nat) : (bigEndian width n).length = width := by
  induction width generalizing n with
  | zero => rfl
  | succ width ih => rw [bigEndian, List.length_append, ih, List.length_singleton]

/-- The digits spell the number, as far as they suffice. -/
theorem bigEndianValue_bigEndian (width n : Nat) :
    bigEndianValue (bigEndian width n) = n % 256 ^ width := by
  induction width generalizing n with
  | zero => rw [Nat.pow_zero, Nat.mod_one]; rfl
  | succ width ih =>
    have hdigit : (UInt8.ofNat (n % 256)).toNat = n % 256 :=
      UInt8.toNat_ofNat_of_lt' (Nat.mod_lt n (by decide))
    have hlast : bigEndianValue (bigEndian (width + 1) n) =
        bigEndianValue (bigEndian width (n / 256)) * 256 + (UInt8.ofNat (n % 256)).toNat := by
      rw [bigEndian, bigEndianValue, List.foldl_append]
      rfl
    rw [hlast, ih, hdigit, Nat.pow_succ', Nat.mod_mul, Nat.mul_comm, Nat.add_comm]

theorem bigEndianValue_of_lt {width n : Nat} (h : n < 256 ^ width) :
    bigEndianValue (bigEndian width n) = n := by
  rw [bigEndianValue_bigEndian, Nat.mod_eq_of_lt h]

/-! ## Heads -/

variable {major info argument : Nat} {rest : List UInt8}

theorem toNat_headByte (hmajor : major < 8) (hinfo : info < 32) :
    (headByte major info).toNat = major * 32 + info := by
  have hlt : major * 32 + info < 256 := by omega
  exact UInt8.toNat_ofNat_of_lt' hlt

theorem headByte_div (hmajor : major < 8) (hinfo : info < 32) :
    (headByte major info).toNat / 32 = major := by
  rw [toNat_headByte hmajor hinfo]
  omega

theorem headByte_mod (hmajor : major < 8) (hinfo : info < 32) :
    (headByte major info).toNat % 32 = info := by
  rw [toNat_headByte hmajor hinfo]
  omega

/-- A head of one byte, which is its own argument. -/
theorem head_narrow (hmajor : major < 8) (hinfo : info < 24) (rest : List UInt8) :
    ∃ h, head (headByte major info :: rest) = some ⟨⟨major, info, info⟩, rest, h⟩ := by
  have hlow : info < 32 := by omega
  refine ⟨Nat.lt_succ_self _, ?_⟩
  simp only [head, headByte_div hmajor hlow, headByte_mod hmajor hlow]
  rw [if_pos hinfo]

/-- The low five bits of heads whose argument follows, with its width in bytes. -/
def argumentWidths : List (Nat × Nat) :=
  [(24, 1), (25, 2), (26, 4), (27, 8)]

theorem argumentWidths_info {width : Nat} (h : (info, width) ∈ argumentWidths) :
    24 ≤ info ∧ info < 28 := by
  simp only [argumentWidths, List.mem_cons, Prod.mk.injEq, List.not_mem_nil, or_false] at h
  omega

/-- A head with the argument behind the first byte. -/
theorem head_wide {width n : Nat} (hmajor : major < 8) (hwidth : (info, width) ∈ argumentWidths)
    (hn : n < 256 ^ width) (rest : List UInt8) :
    ∃ h, head (headByte major info :: (bigEndian width n ++ rest)) =
      some ⟨⟨major, info, n⟩, rest, h⟩ := by
  have hinfo := argumentWidths_info hwidth
  have hlow : info < 32 := by omega
  have hlonger : (bigEndian width n ++ rest).length <
      (headByte major info :: (bigEndian width n ++ rest)).length := Nat.lt_succ_self _
  obtain ⟨h', htake⟩ := takeFrom_exact (length_bigEndian width n) hlonger
  refine ⟨h', ?_⟩
  simp only [head, headByte_div hmajor hlow, headByte_mod hmajor hlow]
  rw [if_neg (by omega)]
  simp only [argumentWidths, List.mem_cons, Prod.mk.injEq, List.not_mem_nil, or_false] at hwidth
  rcases hwidth with ⟨rfl, rfl⟩ | ⟨rfl, rfl⟩ | ⟨rfl, rfl⟩ | ⟨rfl, rfl⟩
  all_goals
    simp only [reduceIte, Nat.reduceEqDiff]
    rw [htake, Option.map_some, Reading.map, bigEndianValue_of_lt hn]

/-- The two forms of a head: the argument in the first byte, or behind it in a width that holds
it. -/
theorem headBytes_cases (hargument : argument < UInt64.size) :
    argument < 24 ∧ headBytes major argument = [headByte major argument] ∨
      24 ≤ argument ∧ ∃ info width, (info, width) ∈ argumentWidths ∧ argument < 256 ^ width ∧
        headBytes major argument = headByte major info :: bigEndian width argument := by
  unfold headBytes
  split
  · next hnarrow => exact .inl ⟨hnarrow, rfl⟩
  · next hnarrow =>
    refine .inr ⟨Nat.not_lt.1 hnarrow, ?_⟩
    split
    · next hlt => exact ⟨24, 1, by decide, hlt, rfl⟩
    · split
      · next hlt => exact ⟨25, 2, by decide, hlt, rfl⟩
      · split
        · next hlt => exact ⟨26, 4, by decide, hlt, rfl⟩
        · exact ⟨27, 8, by decide, hargument, rfl⟩

/-- The head of an argument states it, and its low bits are one only for the argument one. -/
theorem head_headBytes (hmajor : major < 8) (hargument : argument < UInt64.size)
    (rest : List UInt8) :
    ∃ info h, head (headBytes major argument ++ rest) =
        some ⟨⟨major, info, argument⟩, rest, h⟩ ∧
      info ≠ unstated ∧ (info = 1 ↔ argument = 1) := by
  unfold unstated
  rcases headBytes_cases hargument with
    ⟨hnarrow, hbytes⟩ | ⟨hle, info, width, hwidth, hlt, hbytes⟩
  · obtain ⟨h, hhead⟩ := head_narrow hmajor hnarrow rest
    rw [hbytes]
    exact ⟨argument, h, hhead, by omega, Iff.rfl⟩
  · obtain ⟨h, hhead⟩ := head_wide hmajor hwidth hlt rest
    have hinfo := argumentWidths_info hwidth
    rw [hbytes]
    exact ⟨info, h, hhead, by omega, by omega⟩

/-- A head has a byte at least. -/
theorem length_lt_headBytes_append (major argument : Nat) (rest : List UInt8) :
    rest.length < (headBytes major argument ++ rest).length := by
  have hpos : 0 < (headBytes major argument).length := by
    unfold headBytes
    repeat' split
    all_goals simp
  rw [List.length_append]
  omega

/-! ## Texts -/

@[simp] theorem length_utf8 (s : String) : (utf8 s).length = s.utf8ByteSize := by
  simp [utf8]

/-- The bytes of a text encode it. -/
theorem text?_utf8 (s : String) : text? (utf8 s) = some s := by
  have hbytes : (utf8 s).toByteArray = s.toByteArray := by
    apply ByteArray.ext
    simp [utf8]
  rw [text?, hbytes, String.fromUTF8?, dif_pos s.isValidUTF8]
  rfl

end RowFilter.Wire
