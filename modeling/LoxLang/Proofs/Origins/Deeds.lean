import LoxLang.Proofs.Construction.Session
import LoxLang.Proofs.Origins.Course

/-! # Deeds

Sessions are part of a larger program, which takes their steps, and between these also works
on frames, functions, classes and objects of its own making. For this it uses values that
it finds on the machine or that were delivered to it before. Whatever it does, everything
on the machine can be traced: between its deeds, and in the middle of what a step runs.
-/

namespace LoxLang

open LoxLang.Action

/-! ## What can be done -/

inductive Operation where
  | newFrame (enclosing : Option FrameId)
  | define (frame : FrameId) (name : String) (value : Value)
  | get (frame : FrameId) (name : Occurrence)
  | assign (frame : FrameId) (name : Occurrence) (value : Value)
  | getAt (frame : FrameId) (distance : Nat) (name : String)
  | assignAt (frame : FrameId) (distance : Nat) (name : String) (value : Value)
  | newFunction (routine : Routine) (frame : FrameId) (isInitializer : Bool)
  | newClass (name : String) (superclass : Option Class) (methods : Bindings Closure)
  | newObject (description : Class)
  | property (value : Value) (name : Occurrence)
  | setField (object : Nat) (name : String) (value : Value)

def Operation.perform : Operation → Action (List Value)
  | newFrame enclosing => fun machine =>
    .ok [] { machine with frames := machine.frames.push enclosing }
  | define frame name value => do
    defineIn frame name value
    pure []
  | get frame name => do
    let value ← valueFrom frame name
    pure [value]
  | assign frame name value => do
    assignFrom frame name value
    pure []
  | getAt frame distance name => do
    let value ← valueAt frame distance name
    pure [value]
  | assignAt frame distance name value => do
    Action.assignAt frame distance name value
    pure []
  | newFunction routine frame isInitializer => do
    let identity ← newIdentity
    pure [.function identity ⟨routine, frame, isInitializer⟩]
  | newClass name superclass methods => do
    let identity ← newIdentity
    pure [.classValue ⟨identity, name, superclass, methods⟩]
  | newObject description => do
    let object ← Action.newObject description
    pure [object]
  | property value name => do
    let found ← Action.property value name
    pure [found]
  | setField object name value => do
    Action.setField object name value
    pure []

/-- What is done with a session at once. -/
inductive Deed where
  | step (step : Session.Step)
  | operation (operation : Operation)

/-- A session and the values that have been delivered by it. -/
structure Stage where
  session : Session
  hands : List Value

/-- The value is at hand, or it is the class of an object or above a class within reach. -/
inductive InReach (machine : Machine) (hands : List Value) : Value → Prop
  | atHand {value : Value} (atHand : AtHand machine hands value) :
      InReach machine hands value
  | classOf {identity : Nat} {description : Class}
      (object : InReach machine hands (.object identity description)) :
      InReach machine hands (.classValue description)
  | superclass {description parent : Class}
      (below : InReach machine hands (.classValue description))
      (isParent : description.superclass = some parent) :
      InReach machine hands (.classValue parent)

/-- The frames of the operation exist, and its values are within reach. -/
def Operation.Possible (machine : Machine) (hands : List Value) : Operation → Prop
  | newFrame enclosing => ∀ outer ∈ enclosing, outer < machine.frames.size
  | get frame _ | getAt frame _ _ => frame < machine.frames.size
  | define frame _ value | assign frame _ value | assignAt frame _ _ value =>
    frame < machine.frames.size ∧ InReach machine hands value
  | newFunction _ frame _ => frame < machine.frames.size
  | newClass _ superclass methods =>
    (∀ parent ∈ superclass, InReach machine hands (.classValue parent)) ∧
      ∀ name method, methods.get? name = some method → method.frame < machine.frames.size
  | newObject description => InReach machine hands (.classValue description)
  | property value _ | setField _ _ value => InReach machine hands value

namespace Stage

def start (clock : Clock) : Stage := ⟨.start clock, []⟩

def machine (stage : Stage) : Machine := stage.session.machine

variable (stage : Stage)

def after : Deed → Stage
  | .step step => ⟨stage.session.take step, stage.session.delivers step ++ stage.hands⟩
  | .operation operation =>
    ⟨(stage.session.perform operation.perform).1,
      operation.perform.results stage.machine ++ stage.hands⟩

def opened : Deed → Session
  | .step step => stage.session.opened step
  | .operation _ => stage.session

def Possible : Deed → Prop
  | .step (.callGlobal _ _ arguments) =>
    ∀ argument ∈ arguments, InReach stage.machine stage.hands argument
  | .step _ => True
  | .operation operation => operation.Possible stage.machine stage.hands

def Throughout (expected : Stage → Deed → Prop) (stage : Stage) : List Deed → Prop
  | [] => True
  | deed :: rest => expected stage deed ∧ Throughout expected (stage.after deed) rest

inductive Sometime (expected : Stage → Deed → Prop) : Stage → List Deed → Prop
  | now {stage : Stage} {deed : Deed} {rest : List Deed} (holds : expected stage deed) :
      Sometime expected stage (deed :: rest)
  | later {stage : Stage} {deed : Deed} {rest : List Deed}
      (sometime : Sometime expected (stage.after deed) rest) :
      Sometime expected stage (deed :: rest)

def afterAll (stage : Stage) (deeds : List Deed) : Stage := deeds.foldl after stage

abbrev PossibleAll : Stage → List Deed → Prop := Throughout Possible

end Stage

/-- The machine that deeds lead to, behind the last of them or where something begins or
ends that is executed in its course. With it come the values in reach, and what begins. -/
inductive Stage.Arrives : Stage → List Deed → Machine → List Value → Option Task → Prop
  | now {stage : Stage} : Arrives stage [] stage.machine stage.hands none
  | starts {stage : Stage} {step : Session.Step} {work : Work} {execution : Execution}
      (works : stage.session.work? step = some work)
      (undergoes : work.Undergoes (stage.session.opened step).machine execution) :
      Arrives stage [.step step] execution.machine
        (execution.task.handedOver ++ stage.hands) (some execution.task)
  | ends {stage : Stage} {step : Session.Step} {work : Work} {execution : Execution}
      (works : stage.session.work? step = some work)
      (undergoes : work.Undergoes (stage.session.opened step).machine execution) :
      Arrives stage [.step step] (execution.leaves work.budget.rounds) stage.hands none
  | later {stage : Stage} {deed : Deed} {rest : List Deed} {machine : Machine}
      {hands : List Value} {task : Option Task}
      (arrives : Arrives (stage.after deed) rest machine hands task) :
      Arrives stage (deed :: rest) machine hands task

def Stage.Moment (stage : Stage) (deeds : List Deed) (machine : Machine)
    (hands : List Value) : Prop :=
  ∃ done task, done <+: deeds ∧ stage.Arrives done machine hands task

/-! ## What deeds bring in -/

namespace Stage

variable (sources : Sources) (stage : Stage)

/-- The references that a deed brings in together: those of a program that is read, or of a
function that is made by hand. -/
inductive Brings : Deed → List Reference → Prop
  | program {step : Session.Step} {program : Program}
      (accepts : stage.session.Accepts step program) :
      Brings (.step step) (Stmt.referencesOfAll program.statements)
  | function {routine : Routine} {frame : FrameId} {isInitializer : Bool} :
      Brings (.operation (.newFunction routine frame isInitializer)) routine.references
  | method {name asked : String} {superclass : Option Class} {methods : Bindings Closure}
      {method : Closure} (found : methods.get? asked = some method) :
      Brings (.operation (.newClass name superclass methods)) method.routine.references

def Accepts : Deed → Program → Prop
  | .step step, program => stage.session.Accepts step program
  | .operation _, _ => False

inductive Makes : Deed → Class → Prop
  | work {step : Session.Step} {work : Work} {description : Class}
      (works : stage.session.work? step = some work)
      (makes : work.Makes (stage.session.opened step).machine description) :
      Makes (.step step) description
  | operation {name : String} {superclass : Option Class} {methods : Bindings Closure} :
      Makes (.operation (.newClass name superclass methods))
        ⟨stage.machine.identities, name, superclass, methods⟩

def MakesOutermost (deed : Deed) (frame : FrameId) : Prop :=
  deed = .operation (.newFrame none) ∧ frame = stage.machine.frames.size

structure Traced : Prop where
  machine : stage.machine.Traced sources
  hands : ∀ value ∈ stage.hands, value.Traced sources stage.machine

structure Ready (deed : Deed) : Prop where
  traced : stage.Traced sources
  possible : stage.Possible deed
  brings : ∀ references, stage.Brings deed references → sources.Read references
  makes : ∀ description, stage.Makes deed description → sources.Made description

end Stage

variable {sources : Sources} {machine : Machine} {hands : List Value} {stage : Stage}

theorem AtHand.traced {value : Value} (atHand : AtHand machine hands value)
    (traced : machine.Traced sources)
    (tracedHands : ∀ value ∈ hands, value.Traced sources machine) :
    value.Traced sources machine := by
  cases atHand with
  | named found => exact traced.values _ _ _ found
  | field isObject found => exact traced.fields _ _ _ _ isObject found
  | handed member => exact tracedHands value member
  | plain isPlain => exact isPlain.traced

theorem InReach.traced {value : Value} (inReach : InReach machine hands value)
    (traced : machine.Traced sources)
    (tracedHands : ∀ value ∈ hands, value.Traced sources machine) :
    value.Traced sources machine := by
  induction inReach with
  | atHand atHand => exact atHand.traced traced tracedHands
  | classOf _ induction => exact induction
  | superclass _ isParent induction => exact Class.Traced.superclass induction isParent

/-! ## Operations -/

namespace Operation

open Sources

variable {operation : Operation}

theorem leads (ready : stage.Ready sources (.operation operation))
    (enclosed : operation ≠ .newFrame none) :
    Leads sources stage.machine operation.perform fun later values =>
      ∀ value ∈ values, value.Traced sources later := by
  rcases ready with ⟨traced, possible, brings, makes⟩
  have inReach : ∀ {value}, InReach stage.machine stage.hands value →
      value.Traced sources stage.machine :=
    fun inReach => inReach.traced traced.machine traced.hands
  cases operation with
  | newFrame enclosing =>
      cases enclosing with
      | none => exact absurd rfl enclosed
      | some enclosing =>
          exact fun _ => .ok (traced.machine.push (possible _ rfl)) (List.forall_mem_nil _)
  | define frame name value =>
      exact (leads_defineIn frame name (inReach possible.2)).bind fun _ _ _ _ _ =>
        .pure (List.forall_mem_nil _)
  | get frame name =>
      apply (leads_valueFrom frame name).bind
      rintro _ value - - ⟨rfl, tracedValue⟩
      exact .pure (List.forall_mem_singleton.mpr tracedValue)
  | assign frame name value =>
      exact (leads_assignFrom frame name (inReach possible.2)).bind fun _ _ _ _ _ =>
        .pure (List.forall_mem_nil _)
  | getAt frame distance name =>
      apply (leads_valueAt frame distance name).bind
      rintro _ value - - ⟨rfl, tracedValue⟩
      exact .pure (List.forall_mem_singleton.mpr tracedValue)
  | assignAt frame distance name value =>
      exact (leads_assignAt frame distance name (inReach possible.2)).bind fun _ _ _ _ _ =>
        .pure (List.forall_mem_nil _)
  | newFunction routine frame isInitializer =>
      apply leads_newIdentity.bind
      intro later identity _ leads _
      have tracedClosure : Closure.Traced sources later ⟨routine, frame, isInitializer⟩ :=
        ⟨Nat.lt_of_lt_of_le possible leads.proceeds.frames, brings _ .function⟩
      exact .pure (List.forall_mem_singleton.mpr tracedClosure)
  | newClass name superclass methods =>
      apply leads_newIdentity.bind
      rintro later _ - leads ⟨rfl, next⟩
      have inherited : ∀ parent ∈ superclass, parent.Traced sources stage.machine :=
        fun parent found => inReach (possible.1 parent found)
      have founded : Class.Founded sources later
          ⟨stage.machine.identities, name, superclass, methods⟩ := by
        refine ⟨next ▸ Nat.lt_succ_self _, fun asked method found => ?_,
          fun parent found => ?_⟩
        · exact ⟨Nat.lt_of_lt_of_le (possible.2 asked method found) leads.proceeds.frames,
            brings _ (.method found)⟩
        · exact (inherited parent found).founded.numbered
      have tracedClass : Class.Traced sources later _ :=
        .of_founded (makes _ .operation) founded fun parent found =>
          (inherited parent found).mono leads.proceeds.toContinues
      exact .pure (List.forall_mem_singleton.mpr tracedClass)
  | newObject description =>
      apply (leads_newObject (inReach possible)).bind
      exact fun _ _ _ _ tracedObject => .pure (List.forall_mem_singleton.mpr tracedObject)
  | property value name =>
      apply (leads_property (inReach possible) name).bind
      exact fun _ _ _ _ tracedValue => .pure (List.forall_mem_singleton.mpr tracedValue)
  | setField object name value =>
      exact (leads_setField object name (inReach possible)).bind fun _ _ _ _ _ =>
        .pure (List.forall_mem_nil _)

end Operation

/-! ## Steps -/

section Steps

variable {step : Session.Step} {work : Work}

theorem Session.machine_opened (session : Session) (step : Step) :
    ∃ distances, (session.opened step).machine = { session.machine with distances } := by
  cases step with
  | run budget source =>
      simp only [opened]
      split
      · exact ⟨_, rfl⟩
      · exact ⟨_, rfl⟩
  | runUnchecked | runBlock | defineNative | callGlobal | reset => exact ⟨_, rfl⟩

theorem Session.references_statementsOfBlock (statements : List Stmt) :
    Stmt.referencesOfAll (statementsOfBlock statements) ⊆
      Stmt.referencesOfAll statements := by
  unfold statementsOfBlock
  split
  case h_1 => exact List.subset_append_left _ _
  case h_2 => exact List.nil_subset _

theorem Sources.leads_defineNative (name : String) (arity : Nat) (answer : NativeAnswer) :
    Leads sources machine (defineNative name arity answer) fun _ _ => True :=
  leads_newIdentity.bind fun _ _ _ _ _ => leads_defineIn _ _ trivial

namespace Stage

theorem Traced.opened (traced : stage.Traced sources) (step : Session.Step) :
    (stage.session.opened step).machine.Traced sources ∧
      stage.machine.Continues (stage.session.opened step).machine := by
  rcases stage.session.machine_opened step with ⟨distances, read⟩
  rw [read]
  exact ⟨traced.machine.same rfl rfl rfl (Nat.le_refl _),
    ⟨Nat.le_refl _, fun _ _ => rfl, Nat.le_refl _⟩⟩

theorem Ready.tracedWork (ready : stage.Ready sources (.step step))
    (works : stage.session.work? step = some work) :
    work.Traced sources (stage.session.opened step).machine := by
  rcases ready.traced.opened step with ⟨begun, continues⟩
  refine ⟨begun, ?_, fun description makes => ready.makes description (.work works makes)⟩
  have reads : ∀ program, stage.session.program? step = some program →
      sources.Read (Stmt.referencesOfAll program.statements) :=
    fun program read => ready.brings _ (.program ⟨read, works ▸ rfl⟩)
  cases step with
  | run budget source =>
      simp only [Session.work?] at works
      split at works
      case isTrue =>
          cases works
          exact reads _ rfl
      case isFalse => cases works
  | runUnchecked budget source =>
      cases works
      exact reads _ rfl
  | runBlock budget source =>
      cases works
      exact sources.fewer (reads _ rfl) (Session.references_statementsOfBlock _)
  | callGlobal budget name arguments =>
      rcases Option.map_eq_some_iff.mp works with ⟨callee, found, rfl⟩
      refine ⟨(ready.traced.machine.values _ _ _ found).mono continues, ?_⟩
      intro argument member
      have inReach : InReach stage.machine stage.hands argument :=
        ready.possible argument member
      exact (inReach.traced ready.traced.machine ready.traced.hands).mono continues
  | defineNative | reset => cases works

theorem Ready.take (ready : stage.Ready sources (.step step)) :
    (stage.session.opened step).machine.TracedTo sources (stage.session.take step).machine ∧
      ∀ value ∈ stage.session.delivers step,
        value.Traced sources (stage.session.take step).machine := by
  have begun := (ready.traced.opened step).1
  have silently : ∀ {machine : Machine} printed, machine.Traced sources →
      machine.TracedTo sources { machine with printed } :=
    fun printed traced => traced.tracedTo rfl rfl rfl (Nat.le_refl _) rfl
  cases works : stage.session.work? step with
  | some work =>
      have leads := (ready.tracedWork works).leads
      have there := leads.leaves begun
      have taken := silently #[] there.traced
      rw [Session.machine_take works, Session.delivers_eq works]
      refine ⟨there.trans taken, fun value member => ?_⟩
      exact (leads.results begun value member).mono taken.proceeds.toContinues
  | none =>
      rw [Session.delivers_of_idle works]
      refine ⟨?_, List.forall_mem_nil _⟩
      by_cases native : ∃ name arity answer, step = .defineNative name arity answer
      · rcases native with ⟨name, arity, answer, rfl⟩
        have there := (Sources.leads_defineNative name arity answer).leaves begun
        rw [Session.take, Session.defineNative, Session.machine_perform]
        exact there.trans (silently #[] there.traced)
      · have noNative : ∀ name arity answer, step ≠ .defineNative name arity answer :=
          fun name arity answer same => native ⟨name, arity, answer, same⟩
        rcases Session.machine_take_of_idle works noNative with ⟨printed, taken⟩
        rw [taken]
        exact silently printed begun

end Stage

end Steps

/-! ## Deeds -/

namespace Stage

/-- Where everything can be traced, a deed leads to a stage where everything can be traced.
Frames and numbers stay, and new frames are enclosed unless the deed makes an outermost
one. Of references no more is known than what was found when a text was read. -/
structure Advances (sources : Sources) (stage : Stage) (deed : Deed) : Prop where
  traced : (stage.after deed).Traced sources
  continues : stage.machine.Continues (stage.after deed).machine
  outermost : ∀ frame, stage.machine.frames.size ≤ frame →
    frame < (stage.after deed).machine.frames.size →
    (stage.after deed).machine.frames.enclosing? frame = none →
      stage.MakesOutermost deed frame
  distances : (stage.after deed).machine.distances = (stage.opened deed).machine.distances

theorem Ready.advances_step {step : Session.Step}
    (ready : stage.Ready sources (.step step)) : stage.Advances sources (.step step) := by
  rcases ready.traced.opened step with ⟨-, reading⟩
  rcases ready.take with ⟨taken, delivered⟩
  have continues := reading.trans taken.proceeds.toContinues
  refine ⟨⟨taken.traced, ?_⟩, continues, fun frame new exists_ unenclosed => ?_,
    taken.proceeds.distances⟩
  · refine List.forall_mem_append.mpr ⟨delivered, fun value member => ?_⟩
    exact (ready.traced.hands value member).mono continues
  · rcases stage.session.machine_opened step with ⟨distances, read⟩
    have new' : (stage.session.opened step).machine.frames.size ≤ frame := by
      rw [read]
      exact new
    exact absurd unenclosed (taken.proceeds.enclosed frame new' exists_)

theorem machine_after_operation (stage : Stage) (operation : Operation) :
    (stage.after (.operation operation)).machine =
      { operation.perform.leaves stage.machine with printed := #[] } :=
  Session.machine_perform _

theorem Traced.advances_newFrame (traced : stage.Traced sources) :
    stage.Advances sources (.operation (.newFrame none)) := by
  have continues : stage.machine.Continues
      (stage.after (.operation (.newFrame none))).machine := by
    have pushed := Machine.Continues.push stage.machine none
    exact ⟨pushed.frames, pushed.enclosing, pushed.identities⟩
  have size : (stage.after (.operation (.newFrame none))).machine.frames.size =
      stage.machine.frames.size + 1 :=
    Frames.size_push _
  refine ⟨⟨?_, fun value member => (traced.hands value member).mono continues⟩, continues,
    fun frame new exists_ _ => ⟨rfl, ?_⟩, rfl⟩
  · have pushed : Machine.Traced sources
        { stage.machine with frames := stage.machine.frames.push none } :=
      traced.machine.pushed nofun
    exact pushed.same rfl rfl rfl (Nat.le_refl _)
  · rw [size] at exists_
    exact Nat.le_antisymm (Nat.le_of_lt_succ exists_) new

theorem Ready.advances_operation {operation : Operation}
    (ready : stage.Ready sources (.operation operation))
    (enclosed : operation ≠ .newFrame none) :
    stage.Advances sources (.operation operation) := by
  have leads := operation.leads ready enclosed
  have there := leads.leaves ready.traced.machine
  have taken : stage.machine.TracedTo sources
      (stage.after (.operation operation)).machine := by
    rw [machine_after_operation]
    exact there.trans (there.traced.tracedTo rfl rfl rfl (Nat.le_refl _) rfl)
  have traced : (stage.after (.operation operation)).Traced sources := by
    refine ⟨taken.traced, List.forall_mem_append.mpr ⟨fun value member => ?_, ?_⟩⟩
    · rw [machine_after_operation]
      exact (leads.results ready.traced.machine value member).mono
        ⟨Nat.le_refl _, fun _ _ => rfl, Nat.le_refl _⟩
    · exact fun value member =>
        (ready.traced.hands value member).mono taken.proceeds.toContinues
  exact ⟨traced, taken.proceeds.toContinues, fun frame new exists_ unenclosed =>
    absurd unenclosed (taken.proceeds.enclosed frame new exists_), taken.proceeds.distances⟩

theorem Ready.advances {deed : Deed} (ready : stage.Ready sources deed) :
    stage.Advances sources deed := by
  cases deed with
  | step step => exact ready.advances_step
  | operation operation =>
      by_cases outermost : operation = .newFrame none
      · subst outermost
        exact ready.traced.advances_newFrame
      · exact ready.advances_operation outermost

end Stage

end LoxLang
