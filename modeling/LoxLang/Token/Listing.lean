import LoxLang.Token.Piece

/-!
# The tokens of a source text

The token listing keeps the token pieces of a text in order, gives each the line on which
it ends, and closes with the token for the end of the text. Faulty pieces become faults
instead of tokens; they do not stop the listing.
-/

namespace LoxLang

inductive LexicalCause where
  | unexpectedCharacter
  | unterminatedString
  deriving DecidableEq, Repr

structure LexicalFault where
  cause : LexicalCause
  line : Nat
  deriving DecidableEq, Repr

def numberOfText (text : List Char) : Float :=
  let digits := text.filter Char.isDigit
  let decimals := (text.dropWhile (· ≠ '.')).drop 1
  Float.ofScientific (digits.foldl (fun value digit =>
    10 * value + (digit.toNat - '0'.toNat)) 0)
    true decimals.length

def literalOfText (kind : Kind) (text : List Char) : Literal :=
  match kind with
  | .number => .number (numberOfText text)
  | .string => .string (String.ofList ((text.drop 1).dropLast))
  | _ => .nil

structure Listing where
  tokens : List Token
  faults : List LexicalFault

namespace Listing

/-- Adds what one piece that ends on `line` contributes to the listing of the pieces after
it. -/
def prepend (piece : Piece) (line : Nat) (listing : Listing) : Listing :=
  match piece.shape with
  | .token kind =>
    let token : Token :=
      ⟨kind, String.ofList piece.text, literalOfText kind piece.text, line⟩
    { listing with tokens := token :: listing.tokens }
  | .unexpected =>
    { listing with faults := ⟨.unexpectedCharacter, line⟩ :: listing.faults }
  | .unterminated =>
    { listing with faults := ⟨.unterminatedString, line⟩ :: listing.faults }
  | .comment | .blank | .newline => listing

def ofPieces (line : Nat) : List Piece → Listing
  | [] => ⟨[Token.endOfInput line], []⟩
  | piece :: rest =>
    let line := line + piece.newlines
    prepend piece line (ofPieces line rest)

/-- The listing of a source text, whose lines are counted from one. -/
def ofSource (source : String) : Listing := ofPieces 1 (pieces source.toList)

end Listing

end LoxLang
