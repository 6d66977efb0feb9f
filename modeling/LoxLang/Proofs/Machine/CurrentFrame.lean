import LoxLang.Machine.Calls
import LoxLang.Proofs.Store.Frames

/-! # The current frame

Whatever a machine is made to do, and however it ends, the machine is in the same frame
before and after. Blocks and bodies enter a frame and leave it in any case. A class
declaration can be carried out in smaller steps, which enter the frame of the superclass
and leave it by going one frame outward; nothing in between can stop.

Single actions change names, objects, identities and the clock only, so they leave
everything else about the machine as it is. The current frame is one case of this; what
has been printed is another.
-/

namespace LoxLang

namespace Action

def leaves (action : Action α) (machine : Machine) : Machine :=
  match action machine with
  | .ok _ machine => machine
  | .error _ machine => machine

/-- Something about a machine that does not depend on names, objects, identities and the
clock. -/
structure Observation (Seen : Type) where
  of : Machine → Seen
  frames : ∀ machine frames, of { machine with frames } = of machine
  objects : ∀ machine objects, of { machine with objects } = of machine
  identities : ∀ machine identities, of { machine with identities } = of machine
  clock : ∀ machine clock, of { machine with clock } = of machine

def Observation.current : Observation FrameId where
  of := Machine.current
  frames _ _ := rfl
  objects _ _ := rfl
  identities _ _ := rfl
  clock _ _ := rfl

def Observation.printed : Observation (List String) where
  of machine := machine.printed.toList
  frames _ _ := rfl
  objects _ _ := rfl
  identities _ _ := rfl
  clock _ _ := rfl

def Preserves (observation : Observation Seen) (action : Action α) : Prop :=
  ∀ machine, observation.of (action.leaves machine) = observation.of machine

def Restores (action : Action α) : Prop :=
  ∀ machine, (action.leaves machine).current = machine.current

/-! ## Sequences of actions -/

section Sequences

variable {Seen : Type} {observation : Observation Seen} {first : Action β}
  {next : β → Action α}

theorem Preserves.pure (result : α) : Preserves observation (pure result) := fun _ => rfl

theorem Preserves.throw (stop : Stop) : Preserves observation (throw stop : Action α) :=
  fun _ => rfl

theorem Preserves.bind (start : Preserves observation first)
    (later : ∀ result, Preserves observation (next result)) :
    Preserves observation (first >>= next) := by
  intro machine
  have here := start machine
  change observation.of (leaves (EStateM.bind first next) machine) = observation.of machine
  simp only [leaves, EStateM.bind] at here ⊢
  generalize first machine = outcome at here ⊢
  cases outcome with
  | ok result between => exact (later result between).trans here
  | error => exact here

theorem Preserves.map (preserves : Preserves observation first) (transform : β → α) :
    Preserves observation (transform <$> first) := by
  rw [map_eq_pure_bind]
  exact preserves.bind fun _ => .pure _

theorem Restores.pure (result : α) : Restores (pure result) := fun _ => rfl

theorem Restores.throw (stop : Stop) : Restores (throw stop : Action α) := fun _ => rfl

theorem Preserves.restores (preserves : Preserves .current first) : Restores first :=
  preserves

theorem Restores.bind (start : Restores first) (later : ∀ result, Restores (next result)) :
    Restores (first >>= next) :=
  Preserves.bind (show Preserves .current first from start) later

theorem restores_within (frame : FrameId) (action : Action α) :
    Restores (within frame action) := by
  intro machine
  simp only [leaves, within]
  cases action { machine with current := frame } <;> rfl

end Sequences

/-! ## Single actions -/

section Single

variable {Seen : Type} (observation : Observation Seen)

theorem preserves_ofOperator (token : Occurrence) (result : Except OperandFault Value) :
    Preserves observation (ofOperator token result) := by
  cases result with
  | ok => exact .pure _
  | error => exact .throw _

theorem preserves_checkCall (paren : Occurrence) (callee : Value)
    (arguments : List Value) :
    Preserves observation (checkCall paren callee arguments) := by
  rw [checkCall]
  split
  · exact .throw _
  split
  · exact .pure _
  · exact .throw _

theorem preserves_currentFrame : Preserves observation currentFrame := fun _ => rfl

theorem preserves_newIdentity : Preserves observation newIdentity :=
  fun machine => observation.identities machine _

theorem preserves_newFrame (enclosing : FrameId) :
    Preserves observation (newFrame enclosing) :=
  fun machine => observation.frames machine _

theorem preserves_defineIn (frame : FrameId) (name : String) (value : Value) :
    Preserves observation (defineIn frame name value) :=
  fun machine => observation.frames machine _

theorem preserves_define (name : String) (value : Value) :
    Preserves observation (define name value) :=
  (preserves_currentFrame observation).bind fun _ => preserves_defineIn observation _ _ _

theorem preserves_defineAll (frame : FrameId) :
    ∀ names values, Preserves observation (defineAll frame names values)
  | [], _ | _ :: _, [] => .pure _
  | _ :: names, _ :: values =>
    (preserves_defineIn observation _ _ _).bind fun _ =>
      preserves_defineAll frame names values

theorem preserves_valueIn (frame : FrameId) (name : String) :
    Preserves observation (valueIn frame name) := by
  intro machine
  simp only [leaves, valueIn]
  cases machine.frames.here? frame name <;> rfl

theorem preserves_frameAt (distance : Nat) :
    Preserves observation (frameAt distance) := by
  intro machine
  simp only [leaves, frameAt]
  cases machine.frames.ancestor? machine.current distance <;> rfl

theorem preserves_localValue (distance : Nat) (name : String) :
    Preserves observation (localValue distance name) :=
  (preserves_frameAt observation distance).bind fun _ => preserves_valueIn observation _ _

theorem preserves_distanceOf (reference : Occurrence) :
    Preserves observation (distanceOf reference) :=
  fun _ => rfl

theorem preserves_read (reference : Occurrence) :
    Preserves observation (read reference) := by
  apply (preserves_distanceOf observation reference).bind
  rintro (_ | distance)
  · intro machine
    simp only [leaves, globalValue]
    cases machine.frames.get? Machine.globals reference.lexeme <;> rfl
  · exact preserves_localValue observation _ _

theorem preserves_assignGlobal (reference : Occurrence) (value : Value) :
    Preserves observation (assignGlobal reference value) := by
  intro machine
  simp only [leaves, assignGlobal]
  cases machine.frames.assign? Machine.globals reference.lexeme value with
  | none => rfl
  | some frames => exact observation.frames machine frames

theorem preserves_assign (reference : Occurrence) (value : Value) :
    Preserves observation (assign reference value) := by
  apply (preserves_distanceOf observation reference).bind
  rintro (_ | distance)
  · exact preserves_assignGlobal observation reference value
  · exact (preserves_frameAt observation distance).bind fun _ =>
      preserves_defineIn observation _ _ _

theorem preserves_answer (answer : NativeAnswer) (arguments : List Value) :
    Preserves observation (Action.answer answer arguments) := by
  cases answer with
  | clock =>
      have ticks : Preserves observation readClock :=
        fun machine => observation.clock machine _
      exact ticks.map _
  | constant => exact .pure _
  | argument index =>
      simp only [Action.answer]
      split
      · exact .pure _
      · exact .throw _
  | computed compute =>
      simp only [Action.answer]
      split
      · exact .pure _
      · exact .throw _

theorem preserves_newObject (description : Class) :
    Preserves observation (newObject description) :=
  fun machine => observation.objects machine _

theorem preserves_setField (object : Nat) (name : String) (value : Value) :
    Preserves observation (setField object name value) :=
  fun machine => observation.objects machine _

theorem preserves_bindThis (method : Closure) (this : Value) :
    Preserves observation (bindThis method this) :=
  (preserves_newFrame observation _).bind fun _ =>
    (preserves_defineIn observation _ _ _).bind fun _ => .pure _

theorem preserves_method (description : Class) (name : Occurrence) (this : Value) :
    Preserves observation (method description name this) := by
  rw [method]
  split
  · exact (preserves_bindThis observation _ _).bind fun _ =>
      (preserves_newIdentity observation).bind fun _ => .pure _
  · exact .throw _

theorem preserves_property (value : Value) (name : Occurrence) :
    Preserves observation (property value name) := by
  cases value with
  | object identity description =>
      have looked : Preserves observation (field? identity name.lexeme) := fun _ => rfl
      apply looked.bind
      rintro (_ | found)
      · exact preserves_method observation _ _ _
      · exact .pure _
  | nil | bool | number | string | function | native | classValue => exact .throw _

theorem preserves_superMethod (keyword name : Occurrence) :
    Preserves observation (superMethod keyword name) := by
  apply (preserves_distanceOf observation keyword).bind
  rintro (_ | distance)
  · exact .throw _
  · apply (preserves_localValue observation _ _).bind
    intro superclass
    apply (preserves_localValue observation _ _).bind
    intro this
    split
    · exact preserves_method observation _ _ _
    · exact .throw _

end Single

theorem restores_repeatWhile {condition : Action Bool} {body : Action Completion}
    (tested : Restores condition) (done : Restores body) :
    ∀ limit, Restores (repeatWhile condition body limit)
  | 0 => .throw _
  | limit + 1 => by
      rw [repeatWhile]
      apply tested.bind
      intro holds
      split
      · apply done.bind
        rintro (_ | value)
        · exact restores_repeatWhile tested done limit
        · exact .pure _
      · exact .pure _

/-! ## Declarations -/

section Declarations

variable {Seen : Type} (observation : Observation Seen)

theorem preserves_superclass (clause : Option Occurrence) :
    Preserves observation (superclass clause) := by
  cases clause with
  | none => exact .pure _
  | some name =>
      apply (preserves_read observation name).bind
      intro value
      split
      · exact .pure _
      · exact .throw _

theorem preserves_methodFrame (superclass : Option Class) :
    Preserves observation (methodFrame superclass) := by
  apply (preserves_currentFrame observation).bind
  intro frame
  split
  · exact .pure _
  · exact (preserves_newFrame observation _).bind fun _ =>
      (preserves_defineIn observation _ _ _).bind fun _ => .pure _

theorem preserves_declareClass (name : Occurrence) (clause : Option Occurrence)
    (methods : List Routine) :
    Preserves observation (declareClass name clause methods) := by
  apply (preserves_superclass observation clause).bind
  intro superclass
  apply (preserves_define observation _ _).bind
  intro
  apply (preserves_methodFrame observation superclass).bind
  intro frame
  exact (preserves_newIdentity observation).bind fun _ =>
    preserves_define observation _ _

theorem preserves_declareFunction (routine : Routine) :
    Preserves observation (declareFunction routine) :=
  (preserves_currentFrame observation).bind fun _ =>
    (preserves_newIdentity observation).bind fun _ => preserves_define observation _ _

end Declarations

/-! ## Class declarations in steps -/

section Classes

def enter (frame : FrameId) : Action Unit := fun machine =>
  .ok () { machine with current := frame }

def leave : Action Unit := fun machine =>
  match machine.frames.enclosing? machine.current with
  | some outer => .ok () { machine with current := outer }
  | none => .error (.defect .frameMissing) machine

def assignNearest (name : Occurrence) (value : Value) : Action Unit := fun machine =>
  match machine.frames.assign? machine.current name.lexeme value with
  | some frames => .ok () { machine with frames }
  | none => .error (.error ⟨name, .undefinedVariable name.lexeme⟩) machine

def enterSuperclass : Option Class → Action Unit
  | none => pure ()
  | some description => do
    let inner ← newFrame (← currentFrame)
    enter inner
    define "super" (.classValue description)

def leaveSuperclass : Option Class → Action Unit
  | none => pure ()
  | some _ => leave

/-- The frame in which the methods of a new class are made and the identity of the class,
found by entering the frame of the superclass and leaving it. -/
def makeMethods (superclass : Option Class) : Action (FrameId × Nat) := do
  enterSuperclass superclass
  let frame ← currentFrame
  let identity ← newIdentity
  leaveSuperclass superclass
  pure (frame, identity)

/-- Declares a class in steps each of which changes the machine in one place. -/
def declareClassInSteps (name : Occurrence) (clause : Option Occurrence)
    (methods : List Routine) : Action Unit := do
  let superclass ← superclass clause
  define name.lexeme .nil
  let (frame, identity) ← makeMethods superclass
  assignNearest name
    (.classValue ⟨identity, name.lexeme, superclass, Class.methodTable frame methods⟩)

theorem makeMethods_eq (superclass : Option Class) :
    makeMethods superclass = (do
      let frame ← methodFrame superclass
      let identity ← newIdentity
      pure (frame, identity)) := by
  cases superclass with
  | none => rfl
  | some description =>
      funext machine
      have enclosed : ((machine.frames.push (some machine.current)).define
          machine.frames.size "super" (.classValue description)).enclosing?
            machine.frames.size = some machine.current := by
        rw [Frames.enclosing?_define, Frames.enclosing?_push, if_pos rfl]
      simp [makeMethods, enterSuperclass, leaveSuperclass, methodFrame, enter, leave,
        define, currentFrame, newFrame, defineIn, newIdentity, Bind.bind, EStateM.bind,
        Pure.pure, EStateM.pure, enclosed]

theorem restores_makeMethods (superclass : Option Class) :
    Restores (makeMethods superclass) := by
  rw [makeMethods_eq]
  exact (preserves_methodFrame .current superclass).bind fun _ =>
    (preserves_newIdentity .current).bind fun _ => .pure _

theorem restores_assignNearest (name : Occurrence) (value : Value) :
    Restores (assignNearest name value) := by
  intro machine
  simp only [leaves, assignNearest]
  cases machine.frames.assign? machine.current name.lexeme value <;> rfl

theorem restores_declareClassInSteps (name : Occurrence) (clause : Option Occurrence)
    (methods : List Routine) : Restores (declareClassInSteps name clause methods) := by
  apply (preserves_superclass .current clause).bind
  intro superclass
  apply (preserves_define .current _ _).bind
  intro
  apply (restores_makeMethods superclass).bind
  intro
  exact restores_assignNearest _ _

theorem leaves_read (reference : Occurrence) (machine : Machine) :
    (read reference).leaves machine = machine := by
  simp only [leaves, read, distanceOf, Bind.bind, EStateM.bind]
  cases machine.distances.get? reference.place with
  | none =>
      simp only [globalValue]
      cases machine.frames.get? Machine.globals reference.lexeme <;> rfl
  | some distance =>
      simp only [localValue, frameAt, Bind.bind, EStateM.bind]
      cases machine.frames.ancestor? machine.current distance with
      | none => rfl
      | some frame =>
          simp only [valueIn]
          cases machine.frames.here? frame reference.lexeme <;> rfl

theorem leaves_superclass (clause : Option Occurrence) (machine : Machine) :
    (superclass clause).leaves machine = machine := by
  cases clause with
  | none => rfl
  | some name =>
      have unchanged := leaves_read name machine
      simp only [leaves, superclass, Bind.bind, EStateM.bind] at unchanged ⊢
      cases found : read name machine with
      | error => rwa [found] at unchanged
      | ok value between =>
          rw [found] at unchanged
          cases value <;> exact unchanged

theorem assignNearest_eq_define {machine : Machine} {name : Occurrence}
    (inFrame : machine.current < machine.frames.size)
    (bound : (machine.frames.namesOf machine.current).contains name.lexeme)
    (value : Value) :
    assignNearest name value machine = define name.lexeme value machine := by
  rw [assignNearest, Frames.assign?_here inFrame bound]
  rfl

/-- The steps of a class declaration make up the declaration. -/
theorem declareClassInSteps_eq (name : Occurrence) (clause : Option Occurrence)
    (methods : List Routine) {machine : Machine}
    (inFrame : machine.current < machine.frames.size) :
    declareClassInSteps name clause methods machine =
      declareClass name clause methods machine := by
  have unchanged := leaves_superclass clause machine
  change EStateM.bind _ _ machine = EStateM.bind _ _ machine
  simp only [EStateM.bind, leaves] at unchanged ⊢
  cases found : superclass clause machine with
  | error => rfl
  | ok superclass between =>
      rw [found] at unchanged
      obtain rfl : between = machine := unchanged
      have bound : ((between.frames.define between.current name.lexeme
          .nil).namesOf between.current).contains name.lexeme := by
        rw [Frames.namesOf_define _ inFrame, if_pos rfl, Bindings.contains_bind]
        simp
      simp only [makeMethods_eq, bind_assoc, pure_bind]
      cases superclass with
      | none => exact assignNearest_eq_define (by simpa using inFrame) bound _
      | some description =>
          have inner : between.frames.size ≠ between.current := (Nat.ne_of_lt inFrame).symm
          refine assignNearest_eq_define ?_ ?_ _
          · simp only [Frames.size_define, Frames.size_push]
            exact Nat.lt_succ_of_lt inFrame
          · rw [Frames.namesOf_define _ (by simp), if_neg (by simpa using inner),
              Frames.namesOf_push, if_neg (by simpa using inner.symm)]
            exact bound

end Classes

end Action

end LoxLang
