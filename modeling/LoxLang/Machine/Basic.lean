import LoxLang.Machine.Stop
import LoxLang.Store.Frames

/-!
# The machine

A running program changes frames, the fields of objects, what has been printed, the
identities given out and the readings taken of the clock. It also knows the frame it is
in, and how far outward each local reference is bound. What a program has done up to an
error stays done.
-/

namespace LoxLang

/-- How far outward the reference at each place is bound. -/
structure Distances where
  entries : Array (Option Nat)

namespace Distances

def empty : Distances := ⟨#[]⟩

def get? (distances : Distances) (place : Nat) : Option Nat :=
  distances.entries[place]?.join

def record (distances : Distances) (place distance : Nat) : Distances :=
  let missing := place + 1 - distances.entries.size
  ⟨(distances.entries ++ Array.replicate missing none).setIfInBounds place
    (some distance)⟩

end Distances

/-- A clock, with the seconds that it shows at each reading. -/
structure Clock where
  shows : Nat → Float
  readings : Nat

namespace Clock

def seconds (clock : Clock) : Float := clock.shows clock.readings

def tick (clock : Clock) : Clock := { clock with readings := clock.readings + 1 }

def origin : Float := 1767225600

/-- The clock that starts so many seconds after the origin, and shows one thousandth more
at every reading. -/
def startingAt (start : Float) : Clock where
  shows readings := origin + start + Float.ofScientific readings true 3
  readings := 0

instance {start : Nat} : OfNat Clock start where ofNat := startingAt (Float.ofNat start)

end Clock

structure Machine where
  frames : Frames
  current : FrameId
  objects : Array (Bindings Value)
  distances : Distances
  printed : Array String
  identities : Nat
  clock : Clock

/-- What changes some state and delivers something or stops. The changes before a stop
remain. -/
abbrev Activity (State : Type) := EStateM Stop State

abbrev Action := Activity Machine

inductive Completion (Home : Type := FrameId) where
  | finished
  | returned (value : Value Home)

namespace Completion

def value {Home : Type} : Completion Home → Value Home
  | finished => .nil
  | returned value => value

end Completion

namespace Machine

def globals : FrameId := 0

def bare (clock : Clock) : Machine where
  frames := Frames.empty.push none
  current := globals
  objects := #[]
  distances := Distances.empty
  printed := #[]
  identities := 0
  clock := clock

end Machine

namespace Action

section Activities

/-! ### What does not depend on the state -/

variable {State Home : Type}

def fail (token : Occurrence) (cause : RuntimeCause) : Activity State α :=
  throw (.error ⟨token, cause⟩)

def defect (defect : Defect) : Activity State α := throw (.defect defect)

/-- The result of applying an operator at a word. -/
def ofOperator (token : Occurrence) :
    Except OperandFault (Value Home) → Activity State (Value Home)
  | .ok value => pure value
  | .error fault => fail token (.operands fault)

def checkCall (paren : Occurrence) (callee : Value Home) (arguments : List (Value Home)) :
    Activity State Unit :=
  match callee.arity? with
  | none => fail paren .notCallable
  | some arity =>
    if arguments.length = arity then pure ()
    else fail paren (.argumentCount arity arguments.length)

/-- Does something again and again while a condition holds, at most `limit` times. A
return ends it early. -/
def repeatWhile (condition : Activity State Bool)
    (body : Activity State (Completion Home)) :
    Nat → Activity State (Completion Home)
  | 0 => throw .unfinished
  | limit + 1 => do
    if ← condition then
      match ← body with
      | .finished => repeatWhile condition body limit
      | .returned value => pure (.returned value)
    else pure .finished

end Activities

def newIdentity : Action Nat := fun machine =>
  .ok machine.identities { machine with identities := machine.identities + 1 }

def currentFrame : Action FrameId := fun machine => .ok machine.current machine

def newFrame (enclosing : FrameId) : Action FrameId := fun machine =>
  .ok machine.frames.size { machine with frames := machine.frames.push (some enclosing) }

def defineIn (frame : FrameId) (name : String) (value : Value) : Action Unit :=
  fun machine =>
    .ok () { machine with frames := machine.frames.define frame name value }

def define (name : String) (value : Value) : Action Unit := do
  defineIn (← currentFrame) name value

/-- Binds names to values in a frame, pairwise and in order. What is left over is
ignored. -/
def defineAll (frame : FrameId) : List Occurrence → List Value → Action Unit
  | name :: names, value :: values => do
    defineIn frame name.lexeme value
    defineAll frame names values
  | _, _ => pure ()

/-- Does something in a frame and comes back to the current one, whatever happens. -/
def within (frame : FrameId) (action : Action α) : Action α := fun machine =>
  let previous := machine.current
  match action { machine with current := frame } with
  | .ok result machine => .ok result { machine with current := previous }
  | .error stop machine => .error stop { machine with current := previous }

def distanceOf (reference : Occurrence) : Action (Option Nat) := fun machine =>
  .ok (machine.distances.get? reference.place) machine

def frameAt (distance : Nat) : Action FrameId := fun machine =>
  match machine.frames.ancestor? machine.current distance with
  | some frame => .ok frame machine
  | none => .error (.defect .frameMissing) machine

def valueIn (frame : FrameId) (name : String) : Action Value := fun machine =>
  match machine.frames.here? frame name with
  | some value => .ok value machine
  | none => .error (.defect (.nameMissing name)) machine

def localValue (distance : Nat) (name : String) : Action Value := do
  valueIn (← frameAt distance) name

def globalValue (name : Occurrence) : Action Value := fun machine =>
  match machine.frames.get? Machine.globals name.lexeme with
  | some value => .ok value machine
  | none => .error (.error ⟨name, .undefinedVariable name.lexeme⟩) machine

def assignGlobal (name : Occurrence) (value : Value) : Action Unit := fun machine =>
  match machine.frames.assign? Machine.globals name.lexeme value with
  | some frames => .ok () { machine with frames }
  | none => .error (.error ⟨name, .undefinedVariable name.lexeme⟩) machine

def read (reference : Occurrence) : Action Value := do
  match ← distanceOf reference with
  | some distance => localValue distance reference.lexeme
  | none => globalValue reference

def assign (reference : Occurrence) (value : Value) : Action Unit := do
  match ← distanceOf reference with
  | some distance => defineIn (← frameAt distance) reference.lexeme value
  | none => assignGlobal reference value

def print (text : String) : Action Unit := fun machine =>
  .ok () { machine with printed := machine.printed.push text }

def readClock : Action Float := fun machine =>
  .ok machine.clock.seconds { machine with clock := machine.clock.tick }

end Action

end LoxLang
