import RowFilter.Number.Shortest

/-!
# Finite doubles

The numbers a property of floating-point kind can hold: finite doubles, with a single zero.
They are kept as their sixty-four bits. Doubles compare as numbers, where the two zeros are one;
as there is no negative zero here, equality of the numbers is equality of the bits, and numbers
that compare equal have one hash.
-/

namespace RowFilter.Number

/-- The bits of the negative zero, which is read as zero. -/
def negativeZero : UInt64 := 0x8000000000000000

/-- A finite double other than the negative zero. -/
structure Binary64 where
  bits : UInt64
  finite : (Format.double.unpack bits.toNat).isSome
  ne_negativeZero : bits ≠ negativeZero

namespace Binary64

@[ext] theorem ext {x y : Binary64} (h : x.bits = y.bits) : x = y := by
  cases x
  cases y
  simpa using h

/-- The bits of a zero of either sign. -/
def isZero (bits : UInt64) : Bool :=
  bits == 0 || bits == negativeZero

/-- Equality of finite doubles as numbers: equal bits, or two zeros. -/
def sameNumber (a b : UInt64) : Bool :=
  a == b || (isZero a && isZero b)

theorem bits_of_isZero {x : Binary64} (h : isZero x.bits = true) : x.bits = 0 := by
  simp only [isZero, Bool.or_eq_true, beq_iff_eq] at h
  exact h.resolve_right x.ne_negativeZero

/-- Without a negative zero, equal numbers have equal bits. -/
theorem sameNumber_iff {x y : Binary64} : sameNumber x.bits y.bits = true ↔ x = y := by
  constructor
  · intro h
    simp only [sameNumber, Bool.or_eq_true, Bool.and_eq_true, beq_iff_eq] at h
    rcases h with h | ⟨hx, hy⟩
    · exact ext h
    · exact ext ((bits_of_isZero hx).trans (bits_of_isZero hy).symm)
  · rintro rfl
    simp [sameNumber]

instance : DecidableEq Binary64 := fun _ _ =>
  decidable_of_iff _ sameNumber_iff

instance : Hashable Binary64 := ⟨fun x => hash x.bits⟩

/-- The number zero. -/
def zero : Binary64 := ⟨0, by decide, by decide⟩

instance : Inhabited Binary64 := ⟨zero⟩

/-- The double with these bits, if it is finite; the negative zero is read as zero. -/
def ofBits? (bits : UInt64) : Option Binary64 :=
  if hz : bits = negativeZero then some zero
  else if hf : (Format.double.unpack bits.toNat).isSome then some ⟨bits, hf, hz⟩
  else none

/-- The number as a signed multiple of a power of two. -/
def toScaled (x : Binary64) : Scaled :=
  (Format.double.unpack x.bits.toNat).get x.finite

/-- The double that is exactly this number, if there is one. -/
def ofScaled? (x : Scaled) : Option Binary64 :=
  (Format.double.pack? x).bind fun bits => ofBits? (UInt64.ofNat bits)

/-- The double nearest to an integer, ties to the even significand; none beyond the range of
doubles. -/
def nearestInt? (n : Int) : Option Binary64 :=
  ofScaled? (Scaled.nearestInt (Format.double.fractionBits + 1) n)

/-- The shortest decimal that reads back as this number, in positional notation. -/
def render (x : Binary64) : String :=
  let s := x.toScaled
  (if s.negative then "-" else "") ++ (shortest Format.double s).render

theorem ofBits?_bits (x : Binary64) : ofBits? x.bits = some x := by
  simp [ofBits?, x.ne_negativeZero, x.finite]

end Binary64

end RowFilter.Number
