/-!
# Binary number formats

A binary floating-point format with `w` exponent bits and `t` fraction bits writes a number as a
sign, an exponent field and a fraction field. Read back, a finite number is

  `± significand · 2 ^ exponent`

with a natural significand below `2 ^ (t + 1)`. Both directions are exact here: `unpack` never
rounds, and `pack?` answers only if the format holds the very number.
-/

namespace RowFilter.Number

/-- The number `± significand · 2 ^ exponent`. -/
structure Scaled where
  negative : Bool
  significand : Nat
  exponent : Int
deriving DecidableEq, Repr

namespace Scaled

/-- An integer, as a multiple of one. -/
def ofInt (n : Int) : Scaled :=
  ⟨decide (n < 0), n.natAbs, 0⟩

/-- How often `2 ^ place` goes into the magnitude, if it does so without remainder. -/
def multipleOf? (x : Scaled) (place : Int) : Option Nat :=
  if place ≤ x.exponent then
    some (x.significand * Nat.pow 2 (x.exponent - place).toNat)
  else
    let unit := Nat.pow 2 (place - x.exponent).toNat
    if x.significand % unit = 0 then some (x.significand / unit) else none

/-- The number with a significand of at most `precision` bits that is nearest to the integer
`n`; of two equally near ones, the one with the even significand. -/
def nearestInt (precision : Nat) (n : Int) : Scaled :=
  let a := n.natAbs
  if a < Nat.pow 2 precision then ofInt n
  else
    let drop := a.log2 + 1 - precision
    let quotient := a / Nat.pow 2 drop
    let rest := a % Nat.pow 2 drop
    let half := Nat.pow 2 (drop - 1)
    let up := half < rest ∨ (half = rest ∧ quotient % 2 = 1)
    ⟨decide (n < 0), if up then quotient + 1 else quotient, drop⟩

end Scaled

/-- The widths of the exponent field and of the fraction field. -/
structure Format where
  exponentBits : Nat
  fractionBits : Nat
deriving DecidableEq, Repr

namespace Format

/-- Sixteen bits. -/
def half : Format := ⟨5, 10⟩

/-- Thirty-two bits. -/
def single : Format := ⟨8, 23⟩

/-- Sixty-four bits. -/
def double : Format := ⟨11, 52⟩

/-- The greatest exponent of a leading bit. -/
def bias (f : Format) : Nat :=
  Nat.pow 2 (f.exponentBits - 1) - 1

/-- The exponent of the last place of the smallest numbers. -/
def minPlace (f : Format) : Int :=
  1 - f.bias - f.fractionBits

/-- The number that the bits stand for; infinities and not-a-numbers, whose exponent field is
all ones, stand for none. -/
def unpack (f : Format) (bits : Nat) : Option Scaled :=
  let fraction := bits % Nat.pow 2 f.fractionBits
  let field := bits / Nat.pow 2 f.fractionBits % Nat.pow 2 f.exponentBits
  let negative := bits / Nat.pow 2 (f.fractionBits + f.exponentBits) % 2 == 1
  if field = Nat.pow 2 f.exponentBits - 1 then none
  else if field = 0 then some ⟨negative, fraction, f.minPlace⟩
  else some ⟨negative, fraction + Nat.pow 2 f.fractionBits, f.minPlace + (field - 1 : Nat)⟩

/-- The bits of exactly this number, if the format has it. The last place of a number is
`fractionBits` below its leading bit, but never below that of the smallest numbers; counted in
last places, exponent field and fraction field are one number. -/
def pack? (f : Format) (x : Scaled) : Option Nat :=
  let sign := if x.negative then Nat.pow 2 (f.fractionBits + f.exponentBits) else 0
  if x.significand = 0 then some sign
  else
    let top : Int := x.exponent + x.significand.log2
    let place : Int := max (top - f.fractionBits) f.minPlace
    if (f.bias : Int) < top then none
    else (x.multipleOf? place).map fun m =>
      sign + (place - f.minPlace).toNat * Nat.pow 2 f.fractionBits + m

end Format

end RowFilter.Number
