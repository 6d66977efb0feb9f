import LoxLang.Decimal.Shortest

/-!
# Writing a number

Which digits are written is settled by `shortest`. What remains to a format is whether
they are written positionally or with an exponent, how a whole number ends, and the words
for what is not a finite number.
-/

namespace LoxLang.Decimal

structure Layout where
  /-- Numbers whose leading digit stands at a power of ten from here on are written
  positionally. -/
  firstPositional : Int
  firstExponential : Int
  wholeEnding : String
  notANumber : String
  infinity : String

namespace Layout

/-- Digits without an exponent; `point` digits stand before the decimal point. -/
def positional (layout : Layout) (digits : List Char) (point : Int) : String :=
  if point ≤ 0 then
    "0." ++ String.ofList (List.replicate (-point).toNat '0' ++ digits)
  else if digits.length ≤ point.toNat then
    String.ofList (digits ++ List.replicate (point.toNat - digits.length) '0') ++
      layout.wholeEnding
  else
    String.ofList (digits.take point.toNat) ++ "." ++
      String.ofList (digits.drop point.toNat)

/-- The power of ten of the leading digit, with a sign and at least two digits. -/
def exponentText (power : Int) : String :=
  let digits := Nat.toDigits 10 power.natAbs
  (if power < 0 then "e-" else "e+") ++
    String.ofList (List.replicate (2 - digits.length) '0' ++ digits)

def exponential (digits : List Char) (power : Int) : String :=
  let fraction := digits.drop 1
  String.ofList (digits.take 1) ++
    (if fraction.isEmpty then "" else "." ++ String.ofList fraction) ++ exponentText power

def magnitude (layout : Layout) (decimal : Scaled) : String :=
  let digits := Nat.toDigits 10 decimal.digits
  let power := decimal.exponent + digits.length - 1
  if layout.firstPositional ≤ power && power < layout.firstExponential then
    layout.positional digits (power + 1)
  else
    exponential digits power

def signed (negative : Bool) (text : String) : String :=
  if negative then "-" ++ text else text

def write (layout : Layout) (number : Float) : String :=
  match Reading.ofFloat number with
  | .notANumber => layout.notANumber
  | .infinite negative => signed negative layout.infinity
  | .zero negative => signed negative ("0" ++ layout.wholeEnding)
  | .finite negative magnitude => signed negative (layout.magnitude (shortest magnitude))

end Layout

end LoxLang.Decimal
