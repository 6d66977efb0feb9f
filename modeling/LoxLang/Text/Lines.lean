/-!
# Lines of a text file

A text file may end its lines with a line feed, a carriage return, or both together.
Inside the program every line ends with a line feed, so all three are read as one.
-/

namespace LoxLang.Text

/-- Every line ending, of whichever kind, becomes one line feed. -/
def unifyNewlines : List Char → List Char
  | [] => []
  | '\r' :: '\n' :: rest => '\n' :: unifyNewlines rest
  | '\r' :: rest => '\n' :: unifyNewlines rest
  | character :: rest => character :: unifyNewlines rest

def linesFrom (line : List Char) : List Char → List (List Char)
  | [] => if line.isEmpty then [] else [line]
  | character :: rest =>
    if character = '\n' then line :: linesFrom [] rest
      else linesFrom (line ++ [character]) rest

/-- The lines of a text without their line feeds. A text that ends with a line feed has no
further, empty line after it. -/
def lines (text : List Char) : List (List Char) := linesFrom [] text

end LoxLang.Text
