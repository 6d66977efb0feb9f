import LoxLang.Token.Basic

/-!
# Pieces of a source text

Every source text is a sequence of pieces: tokens, comments, blanks, newlines, and the two
kinds of faulty text. `pieces` cuts a text into them from the left, always taking the
longest piece that starts at the current position, so that nothing between two pieces is
left over.
-/

namespace LoxLang

inductive PieceShape where
  | token (kind : Kind)
  | comment
  | blank
  | newline
  | unexpected
  /-- A string without its closing quote, which takes up the rest of the text. -/
  | unterminated
  deriving DecidableEq, Repr

structure Piece where
  shape : PieceShape
  text : List Char
  deriving DecidableEq, Repr

def isBlank (character : Char) : Bool :=
  character = ' ' || character = '\r' || character = '\t'

def isLetter (character : Char) : Bool :=
  character.isAlpha || character = '_'

def isWordCharacter (character : Char) : Bool :=
  isLetter character || character.isDigit

namespace Piece

def newlines (piece : Piece) : Nat := piece.text.count '\n'

def comment (rest : List Char) : Piece × List Char :=
  (⟨.comment, '/' :: rest.takeWhile (· ≠ '\n')⟩, rest.dropWhile (· ≠ '\n'))

/-- A string runs up to the next quote, over line ends too. -/
def string (rest : List Char) : Piece × List Char :=
  let body := rest.takeWhile (· ≠ '"')
  match rest.dropWhile (· ≠ '"') with
  | [] => (⟨.unterminated, '"' :: body⟩, [])
  | quote :: rest => (⟨.token .string, '"' :: body ++ [quote]⟩, rest)

/-- The point and the digits after it, if a digit follows the point. -/
def fraction : List Char → List Char × List Char
  | '.' :: digit :: rest =>
    if digit.isDigit then
      ('.' :: digit :: rest.takeWhile Char.isDigit, rest.dropWhile Char.isDigit)
    else ([], '.' :: digit :: rest)
  | rest => ([], rest)

def number (lead : Char) (rest : List Char) : Piece × List Char :=
  let whole := lead :: rest.takeWhile Char.isDigit
  let (part, rest) := fraction (rest.dropWhile Char.isDigit)
  (⟨.token .number, whole ++ part⟩, rest)

def wordKind (text : List Char) : Kind :=
  match Keyword.ofSpelling? (String.ofList text) with
  | some word => .keyword word
  | none => .identifier

def word (lead : Char) (rest : List Char) : Piece × List Char :=
  let text := lead :: rest.takeWhile isWordCharacter
  (⟨.token (wordKind text), text⟩, rest.dropWhile isWordCharacter)

/-- The symbol of two characters at the front, or else the symbol of one. -/
def symbol? (lead : Char) (rest : List Char) : Option (Piece × List Char) :=
  match Symbol.ofSpelling? (lead :: rest.take 1) with
  | some symbol => some (⟨.token symbol, lead :: rest.take 1⟩, rest.drop 1)
  | none =>
    (Symbol.ofSpelling? [lead]).map fun symbol => (⟨.token symbol, [lead]⟩, rest)

/-- The longest piece at the front of the text `lead :: rest`, and the text after it. -/
def leading (lead : Char) (rest : List Char) : Piece × List Char :=
  if lead = '/' && rest.head? = some '/' then comment rest
  else match symbol? lead rest with
    | some cut => cut
    | none =>
      if isBlank lead then (⟨.blank, [lead]⟩, rest)
      else if lead = '\n' then (⟨.newline, [lead]⟩, rest)
      else if lead = '"' then string rest
      else if lead.isDigit then number lead rest
      else if isLetter lead then word lead rest
      else (⟨.unexpected, [lead]⟩, rest)

end Piece

def piecesWithin : Nat → List Char → List Piece
  | _, [] => []
  | 0, _ => []
  | limit + 1, lead :: rest =>
    let (piece, rest) := Piece.leading lead rest
    piece :: piecesWithin limit rest

/-- The pieces of a text. No piece is empty, so there are at most as many as
characters. -/
def pieces (source : List Char) : List Piece := piecesWithin source.length source

end LoxLang
