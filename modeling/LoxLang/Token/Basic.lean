import LoxLang.Token.Kind

/-!
# Tokens and their occurrences

A token says what was written and on which line it ended. An occurrence is a token at its
place in the stream of all tokens that a session has read. Two occurrences at different
places are different even when the same name is written twice on one line; that is how one
reference to a variable is told from another.
-/

namespace LoxLang

inductive Literal where
  | nil
  | bool (value : Bool)
  | number (value : Float)
  | string (value : String)

structure Token where
  kind : Kind
  lexeme : String
  literal : Literal
  line : Nat

namespace Token

def endOfInput (line : Nat) : Token := ⟨.endOfInput, "", .nil, line⟩

def identifier (name : String) (line : Nat) : Token := ⟨.identifier, name, .nil, line⟩

end Token

/-- A token at its place among all tokens read by a session. -/
structure Occurrence extends Token where
  place : Nat

def Token.placedFrom (place : Nat) : List Token → List Occurrence
  | [] => []
  | token :: rest => ⟨token, place⟩ :: placedFrom (place + 1) rest

end LoxLang
