import LoxLang.Decimal.Layout
import LoxLang.Value.Basic

/-!
# Printed values

What a program prints for a value. A whole number has no decimal point, and a string has
no quotes.
-/

namespace LoxLang

/-- Numbers of leading power -4 to 15 are positional, and whole ones end without a
point. -/
def printedNumber : Decimal.Layout where
  firstPositional := -4
  firstExponential := 16
  wholeEnding := ""
  notANumber := "NaN"
  infinity := "Infinity"

def Value.text {Home : Type} : Value Home → String
  | nil => "nil"
  | bool true => "true"
  | bool false => "false"
  | number value => printedNumber.write value
  | string value => value
  | function _ closure => s!"<fn {closure.routine.name.lexeme}>"
  | native _ => "<native fn>"
  | classValue description => description.name
  | object _ description => s!"{description.name} instance"

end LoxLang
