import LoxLang.Decimal.Layout
import LoxLang.Text.Quoted
import LoxLang.Tree.Outline

/-!
# Debugging text

The debugging text of a tree writes out every node with its field names, every token with
all it holds, and every value so that its kind can be seen: a number always shows that it
is no whole number type, and a string is quoted.
-/

namespace LoxLang

/-- Numbers of leading power -4 to 15 are positional, and whole ones end in `.0`. -/
def debugNumber : Decimal.Layout where
  firstPositional := -4
  firstExponential := 16
  wholeEnding := ".0"
  notANumber := "nan"
  infinity := "inf"

namespace Literal

def debugText : Literal → String
  | nil => "None"
  | bool true => "True"
  | bool false => "False"
  | number value => debugNumber.write value
  | string value => Text.quoted value

def listingText : Literal → String
  | string value => value
  | value => value.debugText

end Literal

namespace Token

def listingText (token : Token) : String :=
  s!"{token.kind.name} {token.lexeme} {token.literal.listingText}"

def debugText (token : Token) : String :=
  s!"Token(type={Text.quoted token.kind.name}, lexeme={Text.quoted token.lexeme}, " ++
    s!"literal={token.literal.debugText}, line={token.line})"

end Token

namespace Outline

mutual

def debugText : Outline → String
  | .node shape fields =>
    shape.name ++ "(" ++ ", ".intercalate (fieldTexts shape.fieldNames fields) ++ ")"
  | .token word => word.debugText
  | .literal value => value.debugText
  | .sequence [item] => "(" ++ item.debugText ++ ",)"
  | .sequence items => "(" ++ ", ".intercalate (debugTexts items) ++ ")"
  | .absent => "None"

def fieldTexts : List String → List Outline → List String
  | name :: names, field :: fields =>
    (name ++ "=" ++ field.debugText) :: fieldTexts names fields
  | _, _ => []

def debugTexts : List Outline → List String
  | [] => []
  | item :: rest => item.debugText :: debugTexts rest

end

end Outline

end LoxLang
