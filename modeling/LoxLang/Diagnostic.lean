import LoxLang.Token.Listing

/-!
# Reports of faulty programs

A program can be faulty in three ways before it ever runs: in its pieces, in its grammar,
and in what its names are bound to. Each fault has a cause of its own kind; what they
share is how they are reported, namely with a line, the word at fault and a message.
-/

namespace LoxLang

structure Diagnostic where
  line : Nat
  location : String
  message : String
  deriving DecidableEq, Repr

namespace Diagnostic

def locationOf (token : Token) : String :=
  if token.kind = .endOfInput then " at end" else s!" at '{token.lexeme}'"

def atToken (token : Token) (message : String) : Diagnostic :=
  ⟨token.line, locationOf token, message⟩

def text (diagnostic : Diagnostic) : String :=
  s!"[line {diagnostic.line}] Error{diagnostic.location}: {diagnostic.message}"

/-- Diagnostics in order of their lines; those of one line keep their order. -/
def byLine (diagnostics : List Diagnostic) : List Diagnostic :=
  diagnostics.mergeSort fun first second => decide (first.line ≤ second.line)

end Diagnostic

def LexicalCause.message : LexicalCause → String
  | unexpectedCharacter => "Unexpected character."
  | unterminatedString => "Unterminated string."

/-- A faulty piece is reported by its line alone. -/
def LexicalFault.diagnostic (fault : LexicalFault) : Diagnostic :=
  ⟨fault.line, "", fault.cause.message⟩

end LoxLang
