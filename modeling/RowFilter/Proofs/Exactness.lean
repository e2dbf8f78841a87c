import Mathlib.Algebra.Order.Field.Power
import Mathlib.Algebra.Order.Field.Rat
import Mathlib.Tactic.FieldSimp
import Mathlib.Tactic.Ring
import RowFilter.Wire.Decode

/-!
# Exact conversion between number formats

Bits in a format and the number they stand for determine each other: `pack?` gives exactly the
bits whose fields say the magnitude and the sign. So a number that a narrow format holds is the
same number when it is read back into the wide one.
-/

namespace RowFilter.Number

namespace Scaled

variable {x y : Scaled}

/-- The number without its sign. -/
def magnitude (x : Scaled) : ℚ :=
  x.significand * 2 ^ x.exponent

theorem magnitude_eq_zero : x.magnitude = 0 ↔ x.significand = 0 := by
  have hne : (2 : ℚ) ^ x.exponent ≠ 0 := zpow_ne_zero _ two_ne_zero
  rw [magnitude, mul_eq_zero, or_iff_left hne, Nat.cast_eq_zero]

/-- A multiple of a power of two, as one of a smaller power. -/
theorem mul_zpow_of_le {m : Nat} {low high : Int} (h : low ≤ high) :
    (m : ℚ) * 2 ^ high = (m * 2 ^ (high - low).toNat : Nat) * 2 ^ low := by
  have hsplit : high = ((high - low).toNat : Int) + low := by omega
  conv_lhs => rw [hsplit, zpow_add₀ two_ne_zero, zpow_natCast]
  push_cast
  ring

/-- At one place, different multiples are different numbers. -/
theorem mul_zpow_inj {m n : Nat} {place : Int} :
    (m : ℚ) * 2 ^ place = n * 2 ^ place ↔ m = n := by
  have hne : (2 : ℚ) ^ place ≠ 0 := zpow_ne_zero _ two_ne_zero
  rw [mul_left_inj' hne, Nat.cast_inj]

/-- The multiple is the one that the magnitude is. -/
theorem multipleOf?_eq_some {place : Int} {m : Nat} :
    x.multipleOf? place = some m ↔ x.magnitude = m * 2 ^ place := by
  unfold multipleOf? magnitude
  simp only [Nat.pow_eq]
  by_cases hle : place ≤ x.exponent
  · rw [if_pos hle, mul_zpow_of_le hle, mul_zpow_inj, Option.some_inj]
  · rw [if_neg hle, mul_zpow_of_le (Int.le_of_lt (Int.not_le.1 hle)), mul_zpow_inj]
    set unit := 2 ^ (place - x.exponent).toNat with hunit
    have hpos : 0 < unit := Nat.two_pow_pos _
    constructor
    · intro h
      split at h
      · next hdvd =>
        rw [← Option.some.inj h, Nat.div_mul_cancel (Nat.dvd_of_mod_eq_zero hdvd)]
      · cases h
    · intro h
      rw [h, if_pos (Nat.mul_mod_left m unit), Nat.mul_div_cancel m hpos]

/-- The place of the leading bit. -/
def top (x : Scaled) : Int :=
  x.exponent + x.significand.log2

/-- The highest binary place is in the number. -/
theorem zpow_top_le (h : x.significand ≠ 0) : (2 : ℚ) ^ x.top ≤ x.magnitude := by
  have hlog : 2 ^ x.significand.log2 ≤ x.significand := Nat.log2_self_le h
  have hcast : (2 : ℚ) ^ x.significand.log2 ≤ x.significand := by exact_mod_cast hlog
  rw [top, zpow_add₀ two_ne_zero, zpow_natCast, mul_comm]
  exact mul_le_mul_of_nonneg_right hcast (zpow_nonneg zero_le_two _)

theorem magnitude_lt_zpow_top (x : Scaled) : x.magnitude < (2 : ℚ) ^ (x.top + 1) := by
  have hlog : x.significand < 2 ^ (x.significand.log2 + 1) := Nat.lt_log2_self
  have hcast : (x.significand : ℚ) < 2 ^ (x.significand.log2 + 1) := by exact_mod_cast hlog
  have hsplit : x.top + 1 = x.exponent + ((x.significand.log2 + 1 : Nat) : Int) := by
    rw [top]
    omega
  rw [hsplit, zpow_add₀ two_ne_zero, zpow_natCast, mul_comm]
  exact mul_lt_mul_of_pos_right hcast (zpow_pos two_pos _)

/-- A power of two within the number is no higher than its highest place. -/
theorem le_top {k : Int} (h : (2 : ℚ) ^ k ≤ x.magnitude) : k ≤ x.top := by
  have hlt : (2 : ℚ) ^ k < 2 ^ (x.top + 1) := lt_of_le_of_lt h x.magnitude_lt_zpow_top
  have hexp : k < x.top + 1 := (zpow_lt_zpow_iff_right₀ one_lt_two).1 hlt
  omega

/-- One above the number is higher. -/
theorem top_lt {k : Int} (hne : x.significand ≠ 0) (h : x.magnitude < (2 : ℚ) ^ k) :
    x.top < k := by
  have hlt : (2 : ℚ) ^ x.top < 2 ^ k := lt_of_le_of_lt (zpow_top_le hne) h
  exact (zpow_lt_zpow_iff_right₀ one_lt_two).1 hlt

/-- Multiples of a place are compared to higher powers by whole numbers. -/
theorem zpow_le_mul_zpow {m k : Nat} {place : Int} :
    (2 : ℚ) ^ (place + k) ≤ m * 2 ^ place ↔ 2 ^ k ≤ m := by
  have hpos : (0 : ℚ) < 2 ^ place := zpow_pos two_pos _
  rw [zpow_add₀ two_ne_zero, zpow_natCast, mul_comm, mul_le_mul_iff_of_pos_right hpos]
  exact_mod_cast Iff.rfl

theorem mul_zpow_lt_zpow {m k : Nat} {place : Int} :
    (m : ℚ) * 2 ^ place < 2 ^ (place + k) ↔ m < 2 ^ k := by
  rw [← not_le, zpow_le_mul_zpow, not_le]

end Scaled

namespace Format

variable {f : Format} {x y : Scaled} {bits field fraction : Nat} {negative : Bool}

/-! ## Fields -/

/-- The bits with that sign and those fields. -/
def ofFields (f : Format) (negative : Bool) (field fraction : Nat) : Nat :=
  (if negative then 2 ^ (f.fractionBits + f.exponentBits) else 0) + field * 2 ^ f.fractionBits +
    fraction

/-- The significand that the fields say: past the smallest numbers its leading bit is implied. -/
def significandOf (f : Format) (field fraction : Nat) : Nat :=
  if field = 0 then fraction else fraction + 2 ^ f.fractionBits

/-- The last place that the exponent field says. -/
def placeOf (f : Format) (field : Nat) : Int :=
  f.minPlace + (field - 1 : Nat)

/-- The fields stand one above the other. -/
theorem ofFields_eq (f : Format) (negative : Bool) (field fraction : Nat) :
    f.ofFields negative field fraction =
      (negative.toNat * 2 ^ f.exponentBits + field) * 2 ^ f.fractionBits + fraction := by
  cases negative with
  | false => simp [ofFields]
  | true =>
    simp only [ofFields, reduceIte, Bool.toNat_true]
    ring

/-- Fields that fit their widths make bits that fit the format. -/
theorem ofFields_lt (hfield : field < 2 ^ f.exponentBits)
    (hfraction : fraction < 2 ^ f.fractionBits) :
    f.ofFields negative field fraction < 2 ^ (1 + f.exponentBits + f.fractionBits) := by
  have hhigh : negative.toNat * 2 ^ f.exponentBits + field + 1 ≤ 2 ^ (1 + f.exponentBits) := by
    have hsign : negative.toNat ≤ 1 := negative.toNat_le
    have hproduct := Nat.mul_le_mul_right (2 ^ f.exponentBits) hsign
    rw [Nat.pow_add, Nat.pow_one]
    omega
  calc f.ofFields negative field fraction
      < (negative.toNat * 2 ^ f.exponentBits + field + 1) * 2 ^ f.fractionBits := by
        rw [ofFields_eq, Nat.succ_mul]
        omega
    _ ≤ 2 ^ (1 + f.exponentBits) * 2 ^ f.fractionBits := Nat.mul_le_mul_right _ hhigh
    _ = 2 ^ (1 + f.exponentBits + f.fractionBits) := (Nat.pow_add _ _ _).symm

/-- Bits of the format's width have a sign and two fields. -/
theorem exists_fields (h : bits < 2 ^ (1 + f.exponentBits + f.fractionBits)) :
    ∃ negative field fraction, field < 2 ^ f.exponentBits ∧ fraction < 2 ^ f.fractionBits ∧
      bits = f.ofFields negative field fraction := by
  set high := bits / 2 ^ f.fractionBits with hhigh
  have hfraction : bits % 2 ^ f.fractionBits < 2 ^ f.fractionBits :=
    Nat.mod_lt _ (Nat.two_pow_pos _)
  have hfield : high % 2 ^ f.exponentBits < 2 ^ f.exponentBits := Nat.mod_lt _ (Nat.two_pow_pos _)
  have hsign : high / 2 ^ f.exponentBits < 2 := by
    rw [hhigh, Nat.div_div_eq_div_mul, ← Nat.pow_add, Nat.div_lt_iff_lt_mul (Nat.two_pow_pos _)]
    calc bits < 2 ^ (1 + f.exponentBits + f.fractionBits) := h
      _ = 2 * 2 ^ (f.fractionBits + f.exponentBits) := by ring
  refine ⟨high / 2 ^ f.exponentBits == 1, high % 2 ^ f.exponentBits, bits % 2 ^ f.fractionBits,
    hfield, hfraction, ?_⟩
  have hbit : (high / 2 ^ f.exponentBits == 1).toNat = high / 2 ^ f.exponentBits := by
    rcases Nat.lt_succ_iff_lt_or_eq.1 hsign with h0 | h1
    · rw [Nat.lt_one_iff.1 h0]; rfl
    · rw [h1]; rfl
  rw [ofFields_eq, hbit, Nat.div_add_mod', hhigh, Nat.div_add_mod']

/-- What the bits stand for is said by their fields. -/
theorem unpack_ofFields (hfield : field < 2 ^ f.exponentBits)
    (hfraction : fraction < 2 ^ f.fractionBits) :
    f.unpack (f.ofFields negative field fraction) =
      if field = 2 ^ f.exponentBits - 1 then none
      else some ⟨negative, f.significandOf field fraction, f.placeOf field⟩ := by
  have hbits := ofFields_eq f negative field fraction
  have hlow : f.ofFields negative field fraction % 2 ^ f.fractionBits = fraction := by
    rw [hbits, Nat.mul_comm, Nat.mul_add_mod, Nat.mod_eq_of_lt hfraction]
  have hhigh : f.ofFields negative field fraction / 2 ^ f.fractionBits =
      negative.toNat * 2 ^ f.exponentBits + field := by
    rw [hbits, Nat.mul_comm, Nat.mul_add_div (Nat.two_pow_pos _), Nat.div_eq_of_lt hfraction,
      Nat.add_zero]
  have hmiddle : (negative.toNat * 2 ^ f.exponentBits + field) % 2 ^ f.exponentBits = field := by
    rw [Nat.mul_comm, Nat.mul_add_mod, Nat.mod_eq_of_lt hfield]
  have hsign : f.ofFields negative field fraction / 2 ^ (f.fractionBits + f.exponentBits) =
      negative.toNat := by
    rw [Nat.pow_add, ← Nat.div_div_eq_div_mul, hhigh, Nat.mul_comm,
      Nat.mul_add_div (Nat.two_pow_pos _), Nat.div_eq_of_lt hfield, Nat.add_zero]
  have hnegative : (negative.toNat % 2 == 1) = negative := by
    cases negative <;> rfl
  unfold unpack significandOf placeOf
  simp only [Nat.pow_eq, hlow, hhigh, hmiddle, hsign, hnegative]
  split
  · rfl
  · split
    · next hzero => simp [hzero]
    · rfl

/-! ## Packing -/

/-- There are two exponents more than twice the bias, the least and the one that is no number. -/
theorem two_mul_bias (hwidth : 0 < f.exponentBits) : 2 * f.bias + 2 = 2 ^ f.exponentBits := by
  obtain ⟨w, hw⟩ := Nat.exists_eq_succ_of_ne_zero (Nat.ne_of_gt hwidth)
  have hpos : 0 < 2 ^ w := Nat.two_pow_pos w
  rw [bias, hw, Nat.pow_eq, Nat.succ_sub_one, Nat.pow_succ]
  omega

/-- The last place that packing counts in, for a number with that leading place. -/
def lastPlace (f : Format) (top : Int) : Int :=
  max (top - f.fractionBits) f.minPlace

/-- Counted in last places, exponent field and fraction field are one number. -/
theorem ofFields_eq_add (f : Format) (negative : Bool) (field fraction : Nat) :
    f.ofFields negative field fraction =
      (if negative then 2 ^ (f.fractionBits + f.exponentBits) else 0) +
        (f.placeOf field - f.minPlace).toNat * 2 ^ f.fractionBits +
          f.significandOf field fraction := by
  have hplace : (f.placeOf field - f.minPlace).toNat = field - 1 := by
    rw [placeOf]
    omega
  rw [hplace, significandOf, ofFields]
  cases field with
  | zero => simp
  | succ n =>
    simp only [Nat.succ_ne_zero, reduceIte, Nat.add_sub_cancel, Nat.succ_mul]
    omega

/-- Zero has no place, and only a sign. -/
theorem pack?_of_zero (h : x.significand = 0) :
    f.pack? x = some (f.ofFields x.negative 0 0) := by
  simp [pack?, h, ofFields]

/-- Other numbers have bits if they are not too great and a multiple of the last place of the
format. -/
theorem pack?_of_ne_zero (h : x.significand ≠ 0) :
    f.pack? x =
      if (f.bias : Int) < x.top then none
      else (x.multipleOf? (f.lastPlace x.top)).map fun m =>
        (if x.negative then 2 ^ (f.fractionBits + f.exponentBits) else 0) +
          (f.lastPlace x.top - f.minPlace).toNat * 2 ^ f.fractionBits + m := by
  unfold pack?
  rw [if_neg h]
  rfl

/-- A number whose fields say zero is zero. -/
theorem eq_zero_of_significandOf (h : f.significandOf field fraction = 0) :
    field = 0 ∧ fraction = 0 := by
  have hpos : 0 < 2 ^ f.fractionBits := Nat.two_pow_pos _
  rw [significandOf] at h
  split at h <;> omega

/-- What `m` last places are, in fields. Below the implied leading bit there are only the smallest
numbers. -/
theorem exists_fields_of_places {place : Int} {m : Nat} (hplace : f.minPlace ≤ place)
    (hm : m < 2 ^ (f.fractionBits + 1)) (hlow : f.minPlace < place → 2 ^ f.fractionBits ≤ m) :
    ∃ field fraction, fraction < 2 ^ f.fractionBits ∧ f.significandOf field fraction = m ∧
      f.placeOf field = place ∧
      (field = 0 ∨ 2 ^ f.fractionBits ≤ m ∧ (field : Int) = place - f.minPlace + 1) := by
  rw [Nat.pow_succ] at hm
  by_cases hsmall : m < 2 ^ f.fractionBits
  · refine ⟨0, m, hsmall, if_pos rfl, ?_, .inl rfl⟩
    have hle : place ≤ f.minPlace := Int.not_lt.1 fun hlt => absurd (hlow hlt) (by omega)
    rw [placeOf]
    omega
  · have hle : 2 ^ f.fractionBits ≤ m := Nat.not_lt.1 hsmall
    refine ⟨(place - f.minPlace).toNat + 1, m - 2 ^ f.fractionBits, by omega, ?_, ?_,
      .inr ⟨hle, by omega⟩⟩
    · rw [significandOf, if_neg (Nat.succ_ne_zero _), Nat.sub_add_cancel hle]
    · rw [placeOf]
      omega

/-- A number in range that is a multiple of its last place has fields that say it. -/
theorem exists_fields_of_multiple {m : Nat} (hwidth : 0 < f.exponentBits)
    (hne : x.significand ≠ 0) (htop : x.top ≤ f.bias)
    (hm : x.magnitude = m * 2 ^ f.lastPlace x.top) :
    ∃ field fraction, field < 2 ^ f.exponentBits - 1 ∧ fraction < 2 ^ f.fractionBits ∧
      f.significandOf field fraction = m ∧ f.placeOf field = f.lastPlace x.top := by
  have hbias := two_mul_bias hwidth
  have hmin : f.minPlace = 1 - (f.bias : Int) - f.fractionBits := rfl
  have hplace : f.lastPlace x.top = max (x.top - f.fractionBits) f.minPlace := rfl
  have hsmall : m < 2 ^ (f.fractionBits + 1) := by
    -- the number has no place above its highest, and the last one is not further down than this
    have hle : (2 : ℚ) ^ (x.top + 1) ≤ 2 ^ (f.lastPlace x.top + (f.fractionBits + 1 : Nat)) :=
      zpow_le_zpow_right₀ one_le_two (by omega)
    refine Scaled.mul_zpow_lt_zpow.1 (lt_of_lt_of_le ?_ hle)
    rw [← hm]
    exact x.magnitude_lt_zpow_top
  have hlow : f.minPlace < f.lastPlace x.top → 2 ^ f.fractionBits ≤ m := by
    intro hlt
    have hsum : f.lastPlace x.top + (f.fractionBits : Nat) = x.top := by omega
    refine (@Scaled.zpow_le_mul_zpow _ _ (f.lastPlace x.top)).1 ?_
    rw [← hm, hsum]
    exact Scaled.zpow_top_le hne
  obtain ⟨field, fraction, hfraction, hsignificand, hplaceOf, hfield⟩ :=
    exists_fields_of_places (le_max_right _ _) hsmall hlow
  refine ⟨field, fraction, ?_, hfraction, hsignificand, hplaceOf⟩
  rcases hfield with rfl | ⟨hle, hfield⟩
  · omega
  · -- the leading bit is in range, so the exponent field is not all ones
    have hbound : f.lastPlace x.top + (f.fractionBits : Nat) ≤ x.top := by
      refine Scaled.le_top ?_
      rw [hm]
      exact Scaled.zpow_le_mul_zpow.2 hle
    omega

/-- A number that fields say is in range, and its last place is the one that they say. -/
theorem lastPlace_of_fields (hwidth : 0 < f.exponentBits) (hne : x.significand ≠ 0)
    (hfield : field < 2 ^ f.exponentBits - 1) (hfraction : fraction < 2 ^ f.fractionBits)
    (hx : x.magnitude = f.significandOf field fraction * 2 ^ f.placeOf field) :
    x.top ≤ f.bias ∧ f.lastPlace x.top = f.placeOf field := by
  have hbias := two_mul_bias hwidth
  have hmin : f.minPlace = 1 - (f.bias : Int) - f.fractionBits := rfl
  have hplace : f.placeOf field = f.minPlace + (field - 1 : Nat) := rfl
  have hsignificand : f.significandOf field fraction < 2 ^ (f.fractionBits + 1) := by
    rw [significandOf, Nat.pow_succ]
    split <;> omega
  have htop : x.top < f.placeOf field + (f.fractionBits + 1 : Nat) := by
    refine Scaled.top_lt hne ?_
    rw [hx]
    exact Scaled.mul_zpow_lt_zpow.2 hsignificand
  unfold lastPlace
  by_cases hzero : field = 0
  · have hlow : x.top < f.placeOf field + (f.fractionBits : Nat) := by
      refine Scaled.top_lt hne ?_
      rw [hx, significandOf, if_pos hzero]
      exact Scaled.mul_zpow_lt_zpow.2 hfraction
    omega
  · have hhigh : f.placeOf field + (f.fractionBits : Nat) ≤ x.top := by
      refine Scaled.le_top ?_
      rw [hx, significandOf, if_neg hzero]
      exact Scaled.zpow_le_mul_zpow.2 (Nat.le_add_left _ _)
    omega

/-- Packing gives the bits whose fields say the number. -/
theorem pack?_eq_some (hwidth : 0 < f.exponentBits) :
    f.pack? x = some bits ↔ ∃ field fraction, field < 2 ^ f.exponentBits - 1 ∧
      fraction < 2 ^ f.fractionBits ∧ bits = f.ofFields x.negative field fraction ∧
      x.magnitude = f.significandOf field fraction * 2 ^ f.placeOf field := by
  by_cases hzero : x.significand = 0
  · have hmagnitude : x.magnitude = 0 := Scaled.magnitude_eq_zero.2 hzero
    have hbias := two_mul_bias hwidth
    rw [pack?_of_zero hzero, Option.some_inj, hmagnitude]
    constructor
    · rintro rfl
      exact ⟨0, 0, by omega, Nat.two_pow_pos _, rfl, by simp [significandOf]⟩
    · rintro ⟨field, fraction, -, -, rfl, hfields⟩
      have hne : (2 : ℚ) ^ f.placeOf field ≠ 0 := zpow_ne_zero _ two_ne_zero
      have hnone : f.significandOf field fraction = 0 := by
        exact_mod_cast (mul_eq_zero.1 hfields.symm).resolve_right hne
      obtain ⟨rfl, rfl⟩ := eq_zero_of_significandOf hnone
      rfl
  · rw [pack?_of_ne_zero hzero]
    constructor
    · intro h
      split at h
      · cases h
      · next htop =>
        obtain ⟨m, hm, rfl⟩ := Option.map_eq_some_iff.1 h
        rw [Scaled.multipleOf?_eq_some] at hm
        obtain ⟨field, fraction, hfield, hfraction, hsignificand, hplace⟩ :=
          exists_fields_of_multiple hwidth hzero (Int.not_lt.1 htop) hm
        refine ⟨field, fraction, hfield, hfraction, ?_, ?_⟩
        · rw [ofFields_eq_add, hsignificand, hplace]
        · rw [hm, hsignificand, hplace]
    · rintro ⟨field, fraction, hfield, hfraction, rfl, hfields⟩
      obtain ⟨htop, hplace⟩ := lastPlace_of_fields hwidth hzero hfield hfraction hfields
      rw [if_neg (Int.not_lt.2 htop), hplace, Scaled.multipleOf?_eq_some.2 hfields,
        Option.map_some, ofFields_eq_add]

/-- The same number has the same bits. -/
theorem pack?_congr (hwidth : 0 < f.exponentBits) (hnegative : x.negative = y.negative)
    (hmagnitude : x.magnitude = y.magnitude) : f.pack? x = f.pack? y := by
  refine Option.ext fun bits => ?_
  rw [pack?_eq_some hwidth, pack?_eq_some hwidth, hnegative, hmagnitude]

/-- What was packed stands for the same number. -/
theorem unpack_of_pack? (hwidth : 0 < f.exponentBits) (h : f.pack? x = some bits) :
    ∃ y, f.unpack bits = some y ∧ y.negative = x.negative ∧ y.magnitude = x.magnitude := by
  obtain ⟨field, fraction, hfield, hfraction, rfl, hmagnitude⟩ := (pack?_eq_some hwidth).1 h
  refine ⟨⟨x.negative, f.significandOf field fraction, f.placeOf field⟩, ?_, rfl, hmagnitude.symm⟩
  rw [unpack_ofFields (by omega) hfraction, if_neg (by omega)]

theorem pack?_lt (hwidth : 0 < f.exponentBits) (h : f.pack? x = some bits) :
    bits < 2 ^ (1 + f.exponentBits + f.fractionBits) := by
  obtain ⟨field, fraction, hfield, hfraction, rfl, -⟩ := (pack?_eq_some hwidth).1 h
  exact ofFields_lt (by omega) hfraction

/-- What bits stand for has no other bits. -/
theorem pack?_of_unpack (hwidth : 0 < f.exponentBits)
    (hbits : bits < 2 ^ (1 + f.exponentBits + f.fractionBits)) (h : f.unpack bits = some x) :
    f.pack? x = some bits := by
  obtain ⟨negative, field, fraction, hfield, hfraction, rfl⟩ := exists_fields hbits
  rw [unpack_ofFields hfield hfraction] at h
  split at h
  · cases h
  · cases h
    exact (pack?_eq_some hwidth).2 ⟨field, fraction, by omega, hfraction, rfl, rfl⟩

end Format

/-! ## Doubles in narrower formats -/

namespace Binary64

variable {s : Scaled} {x : Binary64}

/-- The bits of a double are read as the number it is. -/
theorem unpack_bits (x : Binary64) : Format.double.unpack x.bits.toNat = some x.toScaled :=
  (Option.some_get x.finite).symm

/-- A number equal to a double is read as that double. -/
theorem ofScaled?_eq_some (hnegative : s.negative = x.toScaled.negative)
    (hmagnitude : s.magnitude = x.toScaled.magnitude) : ofScaled? s = some x := by
  have hwidth : 0 < Format.double.exponentBits := by decide
  have hpack : Format.double.pack? s = some x.bits.toNat := by
    rw [Format.pack?_congr hwidth hnegative hmagnitude]
    exact Format.pack?_of_unpack hwidth x.bits.toNat_lt x.unpack_bits
  rw [ofScaled?, hpack, Option.bind_some, UInt64.ofNat_toNat, ofBits?_bits]

/-- Bits that a format has for a double are read as that double. -/
theorem floatOf_of_pack? {f : Format} {bits : Nat} (hwidth : 0 < f.exponentBits)
    (h : f.pack? x.toScaled = some bits) : Wire.floatOf f bits = some x := by
  obtain ⟨y, hunpack, hnegative, hmagnitude⟩ := Format.unpack_of_pack? hwidth h
  rw [Wire.floatOf, hunpack, Option.bind_some, ofScaled?_eq_some hnegative hmagnitude]

/-- The bits of a double are read as that double. -/
theorem floatOf_bits (x : Binary64) : Wire.floatOf .double x.bits.toNat = some x := by
  rw [Wire.floatOf, x.unpack_bits, Option.bind_some, ofScaled?_eq_some rfl rfl]

end Binary64

end RowFilter.Number
