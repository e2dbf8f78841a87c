import RowFilter.Number.Format

/-!
# The shortest decimal

A binary number is shown by the decimal with the fewest digits that still reads back as the same
number: among the decimals that lie closer to it than to its neighbours (the midpoints belong to
the number whose significand is even) it is one on the coarsest grid `10 ^ k`, the nearest of
those, and the larger one if two are equally near.

All comparisons are between natural numbers: the number and the two ends of its interval are
brought over one denominator first.
-/

namespace RowFilter.Number

/-- The decimal `coefficient · 10 ^ exponent`. -/
structure Decimal where
  coefficient : Nat
  exponent : Int
deriving DecidableEq, Repr

/-- A positive number with the interval of everything that rounds to it, all three as
numerators over one denominator. -/
structure Interval where
  low : Nat
  value : Nat
  high : Nat
  denominator : Nat
  /-- The ends belong to the interval. -/
  closed : Bool

namespace Interval

/-- The interval around `significand · 2 ^ exponent`: half a last place up, and half a last
place down, or a quarter if `narrowBelow` (at a power of two the numbers below lie closer). -/
def ofScaled (significand : Nat) (exponent : Int) (narrowBelow : Bool) : Interval :=
  let factor := Nat.pow 2 (exponent - 2).toNat
  ⟨(4 * significand - if narrowBelow then 1 else 2) * factor, 4 * significand * factor,
    (4 * significand + 2) * factor, Nat.pow 2 (2 - exponent).toNat, significand % 2 == 0⟩

/-- The multiple of `10 ^ k` in the interval that is nearest to the value, if there is one; of
two equally near ones the larger. -/
def onGrid? (i : Interval) (k : Int) : Option Nat :=
  let stretch := Nat.pow 10 (-k).toNat
  let unit := i.denominator * Nat.pow 10 k.toNat
  let within (c : Nat) : Bool :=
    if i.closed then i.low * stretch ≤ c * unit && c * unit ≤ i.high * stretch
    else i.low * stretch < c * unit && c * unit < i.high * stretch
  let below := i.value * stretch / unit
  let above := below + 1
  let upper : Bool := above * unit - i.value * stretch ≤ i.value * stretch - below * unit
  if within below && (!within above || !upper) then some below
  else if within above then some above
  else none

/-- The decimal on the coarsest of the grids `10 ^ k`, `10 ^ (k - 1)`, … that meets the
interval, trying `steps` grids before settling for the next. -/
def search (i : Interval) : (steps : Nat) → (k : Int) → Decimal
  | 0, k =>
    let truncated := i.value * Nat.pow 10 (-k).toNat / (i.denominator * Nat.pow 10 k.toNat)
    ⟨(i.onGrid? k).getD truncated, k⟩
  | steps + 1, k =>
    match i.onGrid? k with
    | some c => ⟨c, k⟩
    | none => i.search steps (k - 1)

end Interval

/-- The shortest decimal of the magnitude of `x`, a number of the format `f`. The search starts
at a power of ten above the number (`0.30103` is just above the decimal logarithm of two) and
passes twenty grids, which is more than the seventeen digits that any number needs. -/
def shortest (f : Format) (x : Scaled) : Decimal :=
  if x.significand = 0 then ⟨0, 0⟩
  else
    let narrowBelow := x.significand == Nat.pow 2 f.fractionBits && f.minPlace < x.exponent
    let top : Int := x.exponent + x.significand.log2 + 1
    (Interval.ofScaled x.significand x.exponent narrowBelow).search 20 (top * 30103 / 100000 + 1)

/-- The decimal in positional notation: no exponent, and no point unless there are places after
it. -/
def Decimal.render (d : Decimal) : String :=
  let digits := Nat.toDigits 10 d.coefficient
  let places := (-d.exponent).toNat
  String.ofList <|
    if places = 0 then digits ++ List.replicate d.exponent.toNat '0'
    else if digits.length ≤ places then
      '0' :: '.' :: List.replicate (places - digits.length) '0' ++ digits
    else digits.take (digits.length - places) ++ '.' :: digits.drop (digits.length - places)

end RowFilter.Number
