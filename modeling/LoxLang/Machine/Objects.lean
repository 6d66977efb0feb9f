import LoxLang.Machine.Basic

/-!
# Objects and their methods

A property of an object is the field last set on it, or else the method of the nearest
class that defines one. Taking a method from an object makes a frame with the single name
`this` around the method, so that the method keeps its object wherever it is called from.
-/

namespace LoxLang

namespace Action

def newObject (description : Class) : Action Value := fun machine =>
  .ok (.object machine.objects.size description)
    { machine with objects := machine.objects.push Bindings.empty }

def field? (object : Nat) (name : String) : Action (Option Value) := fun machine =>
  .ok (machine.objects[object]?.bind (·.get? name)) machine

def setField (object : Nat) (name : String) (value : Value) : Action Unit :=
  fun machine =>
    .ok () { machine with objects := machine.objects.modify object (·.bind name value) }

def bindThis (method : Closure) (this : Value) : Action Closure := do
  let frame ← newFrame method.frame
  defineIn frame "this" this
  pure { method with frame }

def boundMethod (method : Closure) (this : Value) : Action Value := do
  let bound ← bindThis method this
  let identity ← newIdentity
  pure (.function identity bound)

def method (description : Class) (name : Occurrence) (this : Value) : Action Value := do
  match description.findMethod? name.lexeme with
  | some found => boundMethod found this
  | none => fail name (.undefinedProperty name.lexeme)

def property (value : Value) (name : Occurrence) : Action Value := do
  match value with
  | .object identity description =>
    match ← field? identity name.lexeme with
    | some value => pure value
    | none => method description name value
  | _ => fail name .propertyOfNonObject

/-- The method that `super` stands for. The object is found one step inside the frame that
holds the superclass. -/
def superMethod (keyword name : Occurrence) : Action Value := do
  match ← distanceOf keyword with
  | none => defect .superUnbound
  | some distance => do
    let superclass ← localValue distance "super"
    let this ← localValue (distance - 1) "this"
    match superclass with
    | .classValue description => method description name this
    | _ => defect .superNotClass

def superclass : Option Occurrence → Action (Option Class)
  | none => pure none
  | some name => do
    match ← read name with
    | .classValue description => pure (some description)
    | _ => fail name .superclassNotClass

/-- The frame in which methods are declared: a frame that holds the superclass, if there
is one. -/
def methodFrame (superclass : Option Class) : Action FrameId := do
  let frame ← currentFrame
  match superclass with
  | none => pure frame
  | some description => do
    let inner ← newFrame frame
    defineIn inner "super" (.classValue description)
    pure inner

/-- Declares a class. Its name exists while its methods are made, so that they may refer
to it. -/
def declareClass (name : Occurrence) (clause : Option Occurrence)
    (methods : List Routine) : Action Unit := do
  let superclass ← superclass clause
  define name.lexeme .nil
  let frame ← methodFrame superclass
  let identity ← newIdentity
  define name.lexeme
    (.classValue ⟨identity, name.lexeme, superclass, Class.methodTable frame methods⟩)

def declareFunction (routine : Routine) : Action Unit := do
  let frame ← currentFrame
  let identity ← newIdentity
  define routine.name.lexeme (.function identity ⟨routine, frame, false⟩)

end Action

end LoxLang
