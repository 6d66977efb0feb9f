/-!
# Quoted text

The debugging form of a string: between single quotes, or between double quotes when that
saves escaping every single quote. Backslashes, the chosen quote and the three common
control characters are written with a backslash; any other control character is written as
two hexadecimal digits.
-/

namespace LoxLang.Text

/-- Double quotes are chosen only for a text with a single quote and without a double
one. -/
def quoteFor (text : List Char) : Char :=
  if text.contains '\'' && !text.contains '"' then '"' else '\''

def hexDigit (digit : Nat) : Char :=
  if digit < 10 then Char.ofNat ('0'.toNat + digit)
    else Char.ofNat ('a'.toNat + (digit - 10))

def escaped (quote : Char) (character : Char) : List Char :=
  if character = '\\' || character = quote then ['\\', character]
  else if character = '\n' then ['\\', 'n']
  else if character = '\t' then ['\\', 't']
  else if character = '\r' then ['\\', 'r']
  else if character.toNat < 32 || character.toNat = 127 then
    ['\\', 'x', hexDigit (character.toNat / 16), hexDigit (character.toNat % 16)]
  else [character]

def quoted (text : String) : String :=
  let quote := quoteFor text.toList
  String.ofList (quote :: text.toList.flatMap (escaped quote) ++ [quote])

end LoxLang.Text
