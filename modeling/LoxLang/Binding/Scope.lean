import LoxLang.Bindings
import LoxLang.Token.Basic

/-!
# Local scopes

A local scope knows the names declared in it so far, and of each whether its declaration
is complete: a variable is declared before its initializer is read and complete after it.
At the top level there is no scope, because global names are found by name while the
program runs.
-/

namespace LoxLang

/-- The names of one scope, with `true` for those whose declaration is complete. -/
abbrev Scope := Bindings Bool

/-- The local scopes around some place of a program, the innermost first. -/
abbrev Scopes := List Scope

namespace Scopes

def enter (scopes : Scopes) (name : String) (complete : Bool) : Scopes :=
  match scopes with
  | [] => []
  | innermost :: outer => innermost.bind name complete :: outer

def declare (scopes : Scopes) (name : String) : Scopes := enter scopes name false

def define (scopes : Scopes) (name : String) : Scopes := enter scopes name true

def declaredHere (scopes : Scopes) (name : String) : Bool :=
  scopes.head?.any (·.contains name)

def incompleteHere (scopes : Scopes) (name : String) : Bool :=
  scopes.head?.any fun innermost => innermost.get? name = some false

/-- How many scopes lie between a place and the nearest one that declares `name`; no
number if the name is not local. -/
def distance? (scopes : Scopes) (name : String) : Option Nat :=
  scopes.findIdx? (·.contains name)

def nest (scopes : Scopes) (names : List String) : Scopes :=
  names.foldl define (Bindings.empty :: scopes)

end Scopes

end LoxLang
