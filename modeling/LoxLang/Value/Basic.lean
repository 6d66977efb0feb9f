import LoxLang.Bindings
import LoxLang.Tree.Basic

/-!
# Values

Functions, classes and objects are told apart by an identity given to each when it is
created, never by what they contain. A class holds its superclass itself, so the classes
above it are a finite list that nothing can change later.

Where a routine finds its free names is a parameter of all values: the frames of the
machine are one such `Home`, and the one meant where none is given.
-/

namespace LoxLang

abbrev FrameId := Nat

/-- A routine with the place where its free names are found. -/
structure Closure (Home : Type := FrameId) where
  routine : Routine
  frame : Home
  /-- Calls deliver the object being set up, whatever the body returns. -/
  isInitializer : Bool

variable {Home : Type}

def Closure.arity (closure : Closure Home) : Nat := closure.routine.parameters.length

inductive NativeAnswer where
  | clock
  | constant (value : Literal)
  | argument (index : Nat)
  /-- What the host makes of the arguments. It sees the literals for which they stand, and
  that others stand for none, and it may have no answer. -/
  | computed (compute : List (Option Literal) → Option Literal)

structure Native where
  identity : Nat
  arity : Nat
  answer : NativeAnswer

structure Class (Home : Type := FrameId) where
  identity : Nat
  name : String
  superclass : Option (Class Home)
  methods : Bindings (Closure Home)

namespace Class

/-- The nearest class that defines the method, from the class itself upward, and the
method. -/
def findDefinition? (name : String) : Class Home → Option (Class Home × Closure Home)
  | ⟨identity, className, superclass, methods⟩ =>
    match methods.get? name with
    | some method => some (⟨identity, className, superclass, methods⟩, method)
    | none => match superclass with
      | some parent => parent.findDefinition? name
      | none => none

def findMethod? (description : Class Home) (name : String) : Option (Closure Home) :=
  (description.findDefinition? name).map (·.2)

def initializer? (description : Class Home) : Option (Closure Home) :=
  description.findMethod? "init"

/-- A class takes the arguments of its initializer, and none if it has no initializer. -/
def arity (description : Class Home) : Nat :=
  match description.initializer? with
  | some method => method.arity
  | none => 0

/-- The methods of a class body; of methods with one name the last one counts. -/
def methodTable (frame : Home) (methods : List Routine) : Bindings (Closure Home) :=
  methods.foldl
    (fun table method => table.bind method.name.lexeme
      ⟨method, frame, method.isNamedInit⟩)
    Bindings.empty

end Class

inductive Value (Home : Type := FrameId) where
  | nil
  | bool (value : Bool)
  | number (value : Float)
  | string (value : String)
  | function (identity : Nat) (closure : Closure Home)
  | native (function : Native)
  | classValue (description : Class Home)
  | object (identity : Nat) (description : Class Home)

def Literal.value : Literal → Value Home
  | nil => .nil
  | bool value => .bool value
  | number value => .number value
  | string value => .string value

/-- The literal for which a value stands, if there is one. -/
def Value.literal? : Value Home → Option Literal
  | nil => some .nil
  | bool value => some (.bool value)
  | number value => some (.number value)
  | string value => some (.string value)
  | _ => none

def Value.arity? : Value Home → Option Nat
  | function _ closure => some closure.arity
  | native builtIn => some builtIn.arity
  | classValue description => some description.arity
  | _ => none

end LoxLang
