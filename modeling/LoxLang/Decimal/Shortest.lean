import LoxLang.Decimal.Binary

/-!
# The shortest decimal that reads back

Reading a decimal gives the nearest double, so a whole interval of decimals reads back as
one double. Of these the one with the fewest digits is wanted, and of several with equally
few the one nearest to the double. The search tries one digit, two digits, and so on; for
each count only the two neighbours of the exact value on that decimal grid can be nearest.
Seventeen digits always suffice.
-/

namespace LoxLang.Decimal

/-- A decimal magnitude `digits * 10 ^ exponent`. -/
structure Scaled where
  digits : Nat
  exponent : Int

/-- The decimals that read back as one double: those between `low` and `high`, all
numerators over one `denominator`. The two ends belong to the interval when `closed`. -/
structure Interval where
  low : Nat
  value : Nat
  high : Nat
  denominator : Nat
  closed : Bool

/-- The midpoints to the neighbouring doubles bound the interval. A midpoint itself reads
as the double with the even significand. -/
def Binary.interval (magnitude : Binary) : Interval :=
  let quarters := 4 * magnitude.significand
  let below := if magnitude.narrowBelow then quarters - 1 else quarters - 2
  let scale := Nat.pow 2 (magnitude.exponent - 2).toNat
  ⟨below * scale, quarters * scale, (quarters + 2) * scale,
    Nat.pow 2 (2 - magnitude.exponent).toNat, magnitude.significand % 2 = 0⟩

namespace Interval

def contains (interval : Interval) (decimal : Scaled) : Bool :=
  let point := decimal.digits * Nat.pow 10 decimal.exponent.toNat * interval.denominator
  let unit := Nat.pow 10 (-decimal.exponent).toNat
  if interval.closed then
    interval.low * unit ≤ point && point ≤ interval.high * unit
  else
    interval.low * unit < point && point < interval.high * unit

def digitCount (number : Nat) : Nat := (Nat.toDigits 10 number).length

/-- The number of digits before the decimal point of the value; for a value below one it
is the number of zeros after the point, counted negatively. -/
def pointPosition (interval : Interval) : Int :=
  if interval.denominator ≤ interval.value then
    digitCount (interval.value / interval.denominator)
  else
    1 - (digitCount ((interval.denominator - 1) / interval.value) : Int)

/-- The neighbours of the value on the grid of multiples of `10 ^ exponent` that read
back, the nearer one first. The even one is the nearer of two at equal distance. -/
def hitOnGrid? (interval : Interval) (exponent : Int) : Option Scaled :=
  let numerator := interval.value * Nat.pow 10 (-exponent).toNat
  let denominator := interval.denominator * Nat.pow 10 exponent.toNat
  let lower := numerator / denominator
  let remainder := numerator % denominator
  let below : Scaled := ⟨lower, exponent⟩
  let above : Scaled := ⟨lower + 1, exponent⟩
  let lowerIsNearer :=
    2 * remainder < denominator || (2 * remainder = denominator && lower % 2 = 0)
  let (nearer, farther) := if lowerIsNearer then (below, above) else (above, below)
  if interval.contains nearer then some nearer
  else if interval.contains farther then some farther
  else none

def firstHit (interval : Interval) (point : Int) (count : Nat) : Nat → Scaled
  | 0 => ⟨interval.value * Nat.pow 10 (count - point).toNat /
      (interval.denominator * Nat.pow 10 (point - count).toNat), point - count⟩
  | more + 1 =>
    match interval.hitOnGrid? (point - count) with
    | some decimal => decimal
    | none => firstHit interval point (count + 1) more

end Interval

def Scaled.withoutTrailingZeros (decimal : Scaled) : Nat → Scaled
  | 0 => decimal
  | limit + 1 =>
    if decimal.digits % 10 = 0 then
      withoutTrailingZeros ⟨decimal.digits / 10, decimal.exponent + 1⟩ limit
    else decimal

/-- The shortest decimal that reads back as the given magnitude, nearest to it among
those. -/
def shortest (magnitude : Binary) : Scaled :=
  let interval := magnitude.interval
  (interval.firstHit interval.pointPosition 1 17).withoutTrailingZeros 17

end LoxLang.Decimal
