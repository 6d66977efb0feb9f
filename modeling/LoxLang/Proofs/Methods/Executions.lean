import LoxLang.Proofs.Machine.Course
import LoxLang.Proofs.Machine.Restoration
import LoxLang.Proofs.Methods.Retention

/-! # Executions keep what methods are made with

Programs bind variables in frames that are not reserved, and classes and bound methods are
made with new frames. So whatever is executed, and however it ends, reserved frames hold
what they held before.
-/

namespace LoxLang

open Names

def retention : Development where
  Later machine later := machine.frames.Retains later.frames
  refl machine := .refl machine.frames
  trans := .trans
  elsewhere machine _ := .refl machine.frames

theorem retention_of_frames {action : Action α} {machine : Machine}
    (same : (action.leaves machine).frames = machine.frames) :
    retention.Later machine (action.leaves machine) := by
  change machine.frames.Retains (action.leaves machine).frames
  rw [same]
  exact .refl machine.frames

theorem Routine.Settled.unreserved {settlement : Settlement} {scopes : Scopes}
    {routine : Routine} (settled : routine.Settled settlement scopes) :
    ∀ parameter ∈ routine.parameters, parameter.lexeme ∉ reservedNames := by
  cases routine with
  | mk name parameters body => exact settled.1.2

namespace Action

variable {machine reached : Machine} {name : String} {frame : FrameId}

theorem Restores.of_ok {action : Action α} {result : α} (restores : action.Restores)
    (done : action machine = .ok result reached) : reached.current = machine.current := by
  have here := restores machine
  rwa [leaves_of_ok done] at here

/-! ## Actions in a known frame -/

theorem leaves_frameAt (distance : Nat) (machine : Machine) :
    (frameAt distance).leaves machine = machine := by
  simp only [leaves, frameAt]
  cases machine.frames.ancestor? machine.current distance <;> rfl

theorem leaves_localValue (distance : Nat) (name : String) (machine : Machine) :
    (localValue distance name).leaves machine = machine := by
  rw [localValue, leaves_bind_of_still fun _ _ => leaves_valueIn _ _ _, leaves_frameAt]

theorem retains_defineIn (unreserved : name ∉ reservedNames)
    (isOpen : ¬machine.frames.IsReserved frame) (value : Value) :
    retention.Later machine ((defineIn frame name value).leaves machine) :=
  .define unreserved isOpen value

theorem retains_define (unreserved : name ∉ reservedNames)
    (isOpen : ¬machine.frames.IsReserved machine.current) (value : Value) :
    retention.Later machine ((define name value).leaves machine) :=
  retains_defineIn unreserved isOpen value

theorem retains_newFrame (enclosing : FrameId) :
    retention.Later machine ((newFrame enclosing).leaves machine) :=
  .push (some enclosing)

theorem retains_defineAll {parameters : List Occurrence}
    (unreserved : ∀ parameter ∈ parameters, parameter.lexeme ∉ reservedNames)
    (isOpen : machine.frames.IsOpen frame) (arguments : List Value) :
    retention.Later machine ((defineAll frame parameters arguments).leaves machine) := by
  induction parameters generalizing machine arguments with
  | nil => exact retention.refl machine
  | cons parameter parameters induction =>
      cases arguments with
      | nil => exact retention.refl machine
      | cons argument arguments =>
          rw [defineAll]
          apply Development.bind
          · exact retains_defineIn (unreserved parameter (.head _)) isOpen.unreserved argument
          · intro _ between _ reached
            exact induction (fun parameter member => unreserved parameter (.tail _ member))
              (reached.isOpen isOpen) arguments

theorem retains_parameterFrame {closure : Closure}
    (unreserved : ∀ parameter ∈ closure.routine.parameters,
      parameter.lexeme ∉ reservedNames) (arguments : List Value) :
    retention.Later machine ((parameterFrame closure arguments).leaves machine) := by
  rw [parameterFrame]
  apply Development.bind (retains_newFrame closure.frame)
  intro frame between done _
  cases done
  rw [leaves_bind_of_still fun _ _ => rfl]
  exact retains_defineAll unreserved (Frames.isOpen_push _) arguments

theorem parameterFrame_ok {closure : Closure}
    (unreserved : ∀ parameter ∈ closure.routine.parameters,
      parameter.lexeme ∉ reservedNames) {arguments : List Value}
    (entered : parameterFrame closure arguments machine = .ok frame reached) :
    frame = machine.frames.size ∧ reached.frames.IsOpen frame ∧
      reached.frames.enclosing? frame = some closure.frame := by
  obtain ⟨frame, pushed, done, rest⟩ := ok_of_bind_ok entered
  obtain ⟨_, bound, done', rest'⟩ := ok_of_bind_ok rest
  cases rest'
  have isOpen : pushed.frames.IsOpen frame := by
    cases done
    exact Frames.isOpen_push _
  have enclosed : pushed.frames.enclosing? frame = some closure.frame := by
    cases done
    rw [Frames.enclosing?_push, if_pos rfl]
  have later := retains_defineAll unreserved isOpen arguments
  rw [leaves_of_ok done'] at later
  cases done
  exact ⟨rfl, later.isOpen isOpen, (later.enclosing _ isOpen.exists_).trans enclosed⟩

/-! ## Methods -/

theorem boundMethod_eq (method : Closure) (this : Value) (machine : Machine) :
    boundMethod method this machine =
      .ok (.function machine.identities { method with frame := machine.frames.size })
        { machine with
          frames := machine.frames.pushWith method.frame "this" this
          identities := machine.identities + 1 } :=
  rfl

theorem retains_bindThis (method : Closure) (this : Value) :
    retention.Later machine ((bindThis method this).leaves machine) :=
  .pushWith method.frame (by decide) this

theorem retains_boundMethod (method : Closure) (this : Value) :
    retention.Later machine ((boundMethod method this).leaves machine) :=
  .pushWith method.frame (by decide) this

theorem retains_method (description : Class) (name : Occurrence) (this : Value) :
    retention.Later machine ((method description name this).leaves machine) := by
  rw [method]
  cases description.findMethod? name.lexeme with
  | none => exact retention.refl machine
  | some found => exact retains_boundMethod found this

theorem retains_property (value : Value) (name : Occurrence) :
    retention.Later machine ((property value name).leaves machine) := by
  cases value with
  | object identity description =>
      apply Development.bind_still rfl
      intro field _
      cases field with
      | some value => exact retention.refl machine
      | none => exact retains_method _ _ _
  | nil | bool | number | string | function | native | classValue =>
      exact retention.refl machine

theorem retains_superMethod (keyword name : Occurrence) :
    retention.Later machine ((superMethod keyword name).leaves machine) := by
  rw [superMethod]
  apply Development.bind_still rfl
  intro distance _
  cases distance with
  | none => exact retention.refl machine
  | some distance =>
      apply Development.bind_still (leaves_localValue _ _ _)
      intro superclass _
      apply Development.bind_still (leaves_localValue _ _ _)
      intro this _
      cases superclass with
      | classValue description => exact retains_method _ _ _
      | nil | bool | number | string | function | native | object =>
          exact retention.refl machine

/-! ## Declarations -/

theorem retains_methodFrame (superclass : Option Class) :
    retention.Later machine ((methodFrame superclass).leaves machine) := by
  cases superclass with
  | none => exact retention.refl machine
  | some description => exact .pushWith machine.current (by decide) (.classValue description)

theorem retains_declareClass {name : Occurrence} (unreserved : name.lexeme ∉ reservedNames)
    (isOpen : machine.frames.IsOpen machine.current) (clause : Option Occurrence)
    (methods : List Routine) :
    retention.Later machine ((declareClass name clause methods).leaves machine) := by
  rw [declareClass]
  apply Development.bind_still (leaves_superclass clause machine)
  intro superclass _
  apply Development.bind (retains_define unreserved isOpen.unreserved .nil)
  intro _ between done reached
  have here := (preserves_define .current name.lexeme .nil).restores machine
  rw [leaves_of_ok done] at here
  apply Development.bind (retains_methodFrame superclass)
  intro frame between' done' reached'
  have here' := (preserves_methodFrame .current superclass).restores between
  rw [leaves_of_ok done', here] at here'
  apply Development.bind (retention.refl between')
  intro identity last done'' _
  cases done''
  have isOpen' := reached'.isOpen (reached.isOpen isOpen)
  rw [← here'] at isOpen'
  exact retains_define unreserved isOpen'.unreserved _

theorem retains_declareFunction {routine : Routine}
    (unreserved : routine.name.lexeme ∉ reservedNames)
    (isOpen : ¬machine.frames.IsReserved machine.current) :
    retention.Later machine ((declareFunction routine).leaves machine) :=
  .define unreserved isOpen _

/-! ## Variables -/

section Variables

variable {settlement : Settlement} {scopes : Scopes}

theorem retains_assign (stands : Stands settlement scopes machine)
    (isPure : machine.frames.Pure) (isOpen : ¬machine.frames.IsReserved machine.current)
    (usable : scopes.Usable) {reference : Occurrence}
    (binds : settlement.Binds scopes reference)
    (unreserved : reference.lexeme ∉ reservedNames) (value : Value) :
    retention.Later machine ((assign reference value).leaves machine) := by
  rw [assign]
  apply Development.bind_still rfl
  intro distance known
  obtain rfl : machine.distances.get? reference.place = distance :=
    congrArg (fun | .ok result _ => result | .error _ _ => none) known
  rw [stands.sound.distances, binds.2]
  cases found : scopes.distance? reference.lexeme with
  | none =>
      simp only [assignGlobal, leaves]
      cases assigned : machine.frames.assign? Machine.globals reference.lexeme value with
      | none => exact retention.refl machine
      | some frames =>
          obtain ⟨home, isHome, rfl⟩ := Option.map_eq_some_iff.mp assigned
          have has : machine.frames.Has home reference.lexeme := by
            have found := List.find?_some isHome
            exact found
          exact .define unreserved (isPure.not_isReserved has unreserved) value
  | some distance =>
      apply Development.bind_still (leaves_frameAt _ _)
      intro frame reached
      have isTarget : machine.frames.ancestor? machine.current distance = some frame := by
        rw [frameAt] at reached
        split at reached
        case h_1 ancestor same =>
            cases reached
            exact same
        case h_2 => cases reached
      apply retains_defineIn unreserved
      rcases stands.covers.has_or_begun usable found isTarget with has | ⟨rfl, -⟩
      · exact isPure.not_isReserved has unreserved
      · exact isOpen

end Variables

theorem frames_answer (answer : NativeAnswer) (arguments : List Value) (machine : Machine) :
    ((Action.answer answer arguments).leaves machine).frames = machine.frames := by
  cases answer with
  | clock | constant => rfl
  | argument index =>
      simp only [Action.answer]
      cases arguments[index]? <;> rfl
  | computed compute =>
      simp only [Action.answer]
      cases compute (arguments.map Value.literal?) <;> rfl

end Action

/-! ## Executions in open frames -/

/-- A task that is ready in a frame in which variables can be declared. -/
structure Execution.Guarded (settlement : Settlement) (execution : Execution) : Prop where
  ready : Ready settlement execution
  isPure : execution.machine.frames.Pure
  isOpen : execution.machine.frames.IsOpen execution.machine.current

section Guarded

open LoxLang.Action

variable {settlement : Settlement} {rounds depth : Nat} {whole part execution : Execution}
  {machine between before after : Machine}

theorem Executes.current_eq (executes : Executes rounds whole part)
    (noBlock : ∀ statements, whole.task ≠ .statement (.block statements))
    (noClosure : ∀ closure arguments, whole.task ≠ .closure closure arguments) :
    part.machine.current = whole.machine.current := by
  have calls := restores_callWithin rounds whole.depth
  cases executes with
  | assigned | binaryLeft | callee | getObject | grouped | logicalLeft | setObject
  | unaryOperand | firstExpression | inner | condition | printed | returned | initializer
  | loop | loopCondition | firstStatement => rfl
  | binaryRight done | arguments done | logicalRight done | setValue done
  | otherExpressions done => exact (restores_evaluate calls _).of_ok done
  | call done done' =>
      exact ((restores_evaluateAll calls _).of_ok done').trans
        ((restores_evaluate calls _).of_ok done)
  | block => exact absurd rfl (noBlock _)
  | thenBranch done | elseBranch done | loopBody done =>
      exact (restores_test calls _).of_ok done
  | loopRest done done' =>
      exact ((restores_execute calls _).of_ok done').trans
        ((restores_test calls _).of_ok done)
  | otherStatements done => exact (restores_execute calls _).of_ok done
  | function checked => exact (preserves_checkCall .current _ _ _).restores.of_ok checked
  | construct checked made found bound =>
      have first := (preserves_checkCall .current _ _ _).restores.of_ok checked
      cases made
      cases bound
      exact first
  | body => exact absurd rfl (noClosure _ _)

theorem Executes.isOpen (executes : Executes rounds whole part)
    (isOpen : whole.machine.frames.IsOpen whole.machine.current)
    (ready : Ready settlement whole) (later : retention.Later whole.machine part.machine) :
    part.machine.frames.IsOpen part.machine.current := by
  have stays : part.machine.current = whole.machine.current →
      part.machine.frames.IsOpen part.machine.current := by
    intro same
    rw [same]
    exact later.isOpen isOpen
  rcases whole with ⟨depth, task, machine⟩
  cases task with
  | closure closure arguments =>
      cases executes with
      | body entered =>
          cases ready with
          | closure _ soundClosure =>
              obtain ⟨_, _, _, settled⟩ := soundClosure
              exact (parameterFrame_ok settled.unreserved entered).2.1
  | statement statement =>
      cases statement with
      | block statements =>
          cases executes with
          | block done =>
              cases done
              exact Frames.isOpen_push _
      | classDecl | expression | function | ifThen | print | returns | «var» | whileLoop =>
          exact stays (executes.current_eq nofun nofun)
  | expression | expressions | statements | loop | call =>
      exact stays (executes.current_eq nofun nofun)

theorem Execution.Guarded.executes (guarded : whole.Guarded settlement)
    (executes : Executes rounds whole part)
    (later : retention.Later whole.machine part.machine) : part.Guarded settlement where
  ready := guarded.ready.executes executes
  isPure := later.pure guarded.isPure
  isOpen := executes.isOpen guarded.isOpen guarded.ready later

/-- What an execution changes itself keeps what reserved frames hold. -/
theorem Execution.Guarded.retains_change (guarded : execution.Guarded settlement)
    (changes : Changes rounds execution before after)
    (reached : retention.Later execution.machine before) : retention.Later before after := by
  have calls := restores_callWithin rounds execution.depth
  have isPure := reached.pure guarded.isPure
  have isOpen := reached.isOpen guarded.isOpen
  cases changes with
  | assigned done =>
      have here := (restores_evaluate calls _).of_ok done
      cases guarded.ready with
      | expression stands usable settled =>
          obtain ⟨settledValue, binds, unreserved⟩ := settled
          have stands' := (stands.evaluate usable settledValue done).1
          exact retains_assign stands' isPure (here ▸ isOpen.unreserved) usable binds
            unreserved _
  | property => exact retains_property _ _
  | fieldSet => exact retention_of_frames rfl
  | superMethod => exact retains_superMethod _ _
  | block => exact retains_newFrame _
  | classDeclared =>
      cases guarded.ready with
      | statement _ _ settled =>
          exact retains_declareClass settled.1.unreserved guarded.isOpen _ _
  | functionDeclared =>
      cases guarded.ready with
      | statement _ _ settled =>
          exact retains_declareFunction settled.1.unreserved guarded.isOpen.unreserved
  | printed => exact retention_of_frames rfl
  | variableDefined done =>
      have here := (restores_evaluateOption calls _).of_ok done
      cases guarded.ready with
      | statement _ _ settled =>
          exact retains_define settled.1.unreserved (here ▸ isOpen.unreserved) _
  | answered => exact retention_of_frames (frames_answer _ _ _)
  | objectMade => exact retention_of_frames rfl
  | initializerBound => exact retains_bindThis _ _
  | parametersBound =>
      cases guarded.ready with
      | closure _ soundClosure =>
          obtain ⟨_, _, _, settled⟩ := soundClosure
          exact retains_parameterFrame settled.unreserved _

theorem governs_guarded (settlement : Settlement) (rounds : Nat) :
    retention.Governs rounds (Execution.Guarded settlement) where
  parts := Execution.Guarded.executes
  changes := Execution.Guarded.retains_change

end Guarded

end LoxLang
