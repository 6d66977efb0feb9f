/-!
# What a floating-point number denotes

A finite double is a sign and a magnitude `significand * 2 ^ exponent`. The two integers
are read off the bits, so that everything said about decimal texts is said in exact
arithmetic.
-/

namespace LoxLang.Decimal

structure Binary where
  significand : Nat
  exponent : Int
  /-- The next smaller double is only half as far away as the next larger one. -/
  narrowBelow : Bool

inductive Reading where
  | notANumber
  | infinite (negative : Bool)
  | zero (negative : Bool)
  | finite (negative : Bool) (magnitude : Binary)

/-- The kind and magnitude of a double, from its sign bit, eleven exponent bits and
fifty-two fraction bits. -/
def Reading.ofFloat (number : Float) : Reading :=
  let bits := number.toBits.toNat
  let negative := bits / Nat.pow 2 63 = 1
  let biased := bits / Nat.pow 2 52 % Nat.pow 2 11
  let fraction := bits % Nat.pow 2 52
  if biased = 2047 then
    if fraction = 0 then .infinite negative else .notANumber
  else if biased = 0 then
    if fraction = 0 then .zero negative else .finite negative ⟨fraction, -1074, false⟩
  else
    .finite negative ⟨Nat.pow 2 52 + fraction, Int.ofNat biased - 1075,
      fraction = 0 && biased > 1⟩

end LoxLang.Decimal
