import LoxLang.Proofs.Names.Evaluation
import LoxLang.Proofs.Objects.Classes
import LoxLang.Proofs.Origins.Values

/-! # What single actions do to origins

Every action leads from a machine on which everything can be traced to another one. New
frames are enclosed by frames that exist, and a class gets its number after its superclass
had one. The only classes that come into being are those that are declared.
-/

namespace LoxLang

namespace Action

def madeClass (name : Occurrence) (clause : Option Occurrence) (methods : List Routine) :
    Action Class := do
  let superclass ← superclass clause
  define name.lexeme .nil
  let frame ← methodFrame superclass
  makeClass name.lexeme superclass frame methods

theorem declareClass_eq_madeClass (name : Occurrence) (clause : Option Occurrence)
    (methods : List Routine) :
    declareClass name clause methods = (do
      let description ← madeClass name clause methods
      define name.lexeme (.classValue description)) := by
  simp only [declareClass_eq, madeClass, bind_assoc]

end Action

namespace Sources

open LoxLang.Action

variable (sources : Sources)

inductive Ends {α : Type} (machine : Machine) (post : Machine → α → Prop) :
    EStateM.Result Stop Machine α → Prop
  | ok {result : α} {later : Machine} (leads : machine.TracedTo sources later)
      (results : post later result) : Ends machine post (.ok result later)
  | error {stop : Stop} {later : Machine} (leads : machine.TracedTo sources later) :
      Ends machine post (.error stop later)

/-- From a machine on which everything can be traced the action leads to another one. -/
def Leads {α : Type} (machine : Machine) (action : Action α) (post : Machine → α → Prop) :
    Prop :=
  machine.Traced sources → Ends sources machine post (action machine)

variable {sources} {machine later : Machine} {α β : Type} {post : Machine → α → Prop}

theorem Ends.from {outcome : EStateM.Result Stop Machine α}
    (ends : Ends sources later post outcome) (before : machine.TracedTo sources later) :
    Ends sources machine post outcome := by
  cases ends with
  | ok leads results => exact .ok (before.trans leads) results
  | error leads => exact .error (before.trans leads)

namespace Leads

theorem pure {result : α} (results : post machine result) :
    Leads sources machine (pure result) post :=
  fun traced => .ok traced.still results

theorem throw (stop : Stop) : Leads sources machine (throw stop : Action α) post :=
  fun traced => .error traced.still

theorem bind {action : Action β} {next : β → Action α} {middle : Machine → β → Prop}
    (first : Leads sources machine action middle)
    (second : ∀ later result, action machine = .ok result later →
      machine.TracedTo sources later → middle later result →
        Leads sources later (next result) post) :
    Leads sources machine (action >>= next) post := by
  intro traced
  change Ends sources machine post (EStateM.bind action next machine)
  have ends := first traced
  simp only [EStateM.bind]
  cases outcome : action machine with
  | ok result later =>
      rw [outcome] at ends
      cases ends with
      | ok leads results => exact (second _ _ outcome leads results leads.traced).from leads
  | error stop later =>
      rw [outcome] at ends
      cases ends with
      | error leads => exact .error leads

theorem imp {action : Action α} {stronger : Machine → α → Prop}
    (leads : Leads sources machine action stronger)
    (implies : ∀ later result, machine.TracedTo sources later → stronger later result →
      post later result) : Leads sources machine action post := by
  intro traced
  have ends := leads traced
  generalize action machine = outcome at ends ⊢
  cases ends with
  | ok leads results => exact .ok leads (implies _ _ leads results)
  | error leads => exact .error leads

theorem ok {action : Action α} {result : α} (leads : Leads sources machine action post)
    (traced : machine.Traced sources) (done : action machine = .ok result later) :
    machine.TracedTo sources later ∧ post later result := by
  have ends := leads traced
  rw [done] at ends
  cases ends with
  | ok leads results => exact ⟨leads, results⟩

theorem leaves {action : Action α} (leads : Leads sources machine action post)
    (traced : machine.Traced sources) :
    machine.TracedTo sources (action.leaves machine) := by
  have ends := leads traced
  rw [Action.leaves]
  generalize action machine = outcome at ends ⊢
  cases ends with
  | ok leads _ => exact leads
  | error leads => exact leads

theorem results {action : Action (List Value)}
    (leads : Leads sources machine action fun later values =>
      ∀ value ∈ values, value.Traced sources later)
    (traced : machine.Traced sources) :
    ∀ value ∈ results action machine, value.Traced sources (action.leaves machine) := by
  have ends := leads traced
  rw [Action.results, Action.leaves]
  generalize action machine = outcome at ends ⊢
  cases ends with
  | ok _ results => exact results
  | error => exact List.forall_mem_nil _

end Leads

/-! ## Frames -/

section Frames

theorem leads_currentFrame : Leads sources machine currentFrame fun later frame =>
    later = machine ∧ frame = machine.current :=
  fun traced => .ok traced.still ⟨rfl, rfl⟩

theorem leads_newFrame {enclosing : FrameId} (exists_ : enclosing < machine.frames.size) :
    Leads sources machine (newFrame enclosing) fun later frame =>
      frame < later.frames.size :=
  fun traced => .ok (traced.push exists_) (by simp)

theorem leads_defineIn (frame : FrameId) (name : String) {value : Value}
    (traced : value.Traced sources machine) :
    Leads sources machine (defineIn frame name value) fun _ _ => True :=
  fun tracedMachine => .ok (tracedMachine.define frame name traced) trivial

theorem leads_define (name : String) {value : Value}
    (traced : value.Traced sources machine) :
    Leads sources machine (define name value) fun _ _ => True := by
  apply leads_currentFrame.bind
  rintro _ frame - - ⟨rfl, rfl⟩
  exact leads_defineIn _ _ traced

theorem leads_defineAll {frame : FrameId} {names : List Occurrence} {values : List Value}
    (traced : ∀ value ∈ values, value.Traced sources machine) :
    Leads sources machine (defineAll frame names values) fun _ _ => True := by
  induction names generalizing machine values with
  | nil => exact .pure trivial
  | cons name names induction =>
      cases values with
      | nil => exact .pure trivial
      | cons value values =>
          rw [List.forall_mem_cons] at traced
          rw [defineAll]
          apply (leads_defineIn _ _ traced.1).bind
          intro later _ _ leads _
          exact induction fun other member =>
            (traced.2 other member).mono leads.proceeds.toContinues

theorem leads_within {frame : FrameId} {action : Action Completion}
    (exists_ : frame < machine.frames.size)
    (leads : Leads sources { machine with current := frame } action
      fun later completion => completion.value.Traced sources later) :
    Leads sources machine (within frame action) fun later completion =>
      completion.value.Traced sources later := by
  intro traced
  have back : ∀ reached : Machine,
      Machine.TracedTo sources { machine with current := frame } reached →
        machine.TracedTo sources { reached with current := machine.current } := by
    intro reached there
    have proceeds : machine.Proceeds reached :=
      progress.trans (progress.elsewhere machine frame) there.proceeds
    exact ⟨there.traced.inFrame (Nat.lt_of_lt_of_le traced.exists_ proceeds.frames),
      progress.trans proceeds (progress.elsewhere _ _), rfl⟩
  have ends := leads (traced.inFrame exists_)
  simp only [within]
  generalize action { machine with current := frame } = outcome at ends ⊢
  cases ends with
  | ok there results =>
      exact .ok (back _ there)
        (results.mono (progress.elsewhere _ _ : Machine.Proceeds _ _).toContinues)
  | error there => exact .error (back _ there)

end Frames

/-! ## References -/

section References

theorem leads_distanceOf (reference : Occurrence) :
    Leads sources machine (distanceOf reference) fun later _ => later = machine :=
  fun traced => .ok traced.still rfl

theorem leads_frameAt (distance : Nat) :
    Leads sources machine (frameAt distance) fun later _ => later = machine := by
  intro traced
  rw [frameAt]
  cases machine.frames.ancestor? machine.current distance with
  | none => exact .error traced.still
  | some frame => exact .ok traced.still rfl

theorem leads_valueIn (frame : FrameId) (name : String) :
    Leads sources machine (valueIn frame name) fun later value =>
      later = machine ∧ value.Traced sources machine := by
  intro traced
  rw [valueIn]
  cases found : machine.frames.here? frame name with
  | none => exact .error traced.still
  | some value => exact .ok traced.still ⟨rfl, traced.values _ _ _ found⟩

theorem leads_valueFrom (frame : FrameId) (name : Occurrence) :
    Leads sources machine (valueFrom frame name) fun later value =>
      later = machine ∧ value.Traced sources machine := by
  intro traced
  rw [valueFrom]
  cases found : machine.frames.get? frame name.lexeme with
  | none => exact .error traced.still
  | some value =>
      rcases Option.bind_eq_some_iff.mp found with ⟨home, -, here⟩
      exact .ok traced.still ⟨rfl, traced.values _ _ _ here⟩

theorem leads_valueAt (frame : FrameId) (steps : Nat) (name : String) :
    Leads sources machine (valueAt frame steps name) fun later value =>
      later = machine ∧ value.Traced sources machine := by
  intro traced
  rw [valueAt]
  cases machine.frames.ancestor? frame steps with
  | none => exact .error traced.still
  | some home => exact leads_valueIn home name traced

theorem leads_assignFrom (frame : FrameId) (name : Occurrence) {value : Value}
    (traced : value.Traced sources machine) :
    Leads sources machine (assignFrom frame name value) fun _ _ => True := by
  intro tracedMachine
  rw [assignFrom]
  cases assigned : machine.frames.assign? frame name.lexeme value with
  | none => exact .error tracedMachine.still
  | some frames =>
      rcases Option.map_eq_some_iff.mp assigned with ⟨home, -, rfl⟩
      exact .ok (tracedMachine.define home name.lexeme traced) trivial

theorem leads_assignAt (frame : FrameId) (steps : Nat) (name : String) {value : Value}
    (traced : value.Traced sources machine) :
    Leads sources machine (assignAt frame steps name value) fun _ _ => True := by
  intro tracedMachine
  rw [assignAt]
  cases machine.frames.ancestor? frame steps with
  | none => exact .error tracedMachine.still
  | some home => exact leads_defineIn home name traced tracedMachine

theorem leads_localValue (distance : Nat) (name : String) :
    Leads sources machine (localValue distance name) fun later value =>
      later = machine ∧ value.Traced sources machine := by
  apply (leads_frameAt distance).bind
  rintro _ frame - - rfl
  exact leads_valueIn frame name

theorem leads_read (reference : Occurrence) :
    Leads sources machine (read reference) fun later value =>
      later = machine ∧ value.Traced sources machine := by
  intro traced
  rw [read_eq]
  cases machine.distances.get? reference.place with
  | some distance => exact leads_valueAt _ distance reference.lexeme traced
  | none => exact leads_valueFrom _ reference traced

theorem leads_assign (reference : Occurrence) {value : Value}
    (traced : value.Traced sources machine) :
    Leads sources machine (assign reference value) fun _ _ => True := by
  intro tracedMachine
  rw [assign_eq]
  cases machine.distances.get? reference.place with
  | some distance => exact leads_assignAt _ distance reference.lexeme traced tracedMachine
  | none => exact leads_assignFrom _ reference traced tracedMachine

end References

/-! ## Numbers, output and clock -/

section Objects

theorem leads_newIdentity : Leads sources machine newIdentity fun later identity =>
    identity = machine.identities ∧ later.identities = machine.identities + 1 :=
  fun traced => .ok (traced.tracedTo rfl rfl rfl (Nat.le_succ _) rfl) ⟨rfl, rfl⟩

theorem leads_print (text : String) :
    Leads sources machine (print text) fun _ _ => True :=
  fun traced => .ok (traced.tracedTo rfl rfl rfl (Nat.le_refl _) rfl) trivial

theorem leads_readClock : Leads sources machine readClock fun _ _ => True :=
  fun traced => .ok (traced.tracedTo rfl rfl rfl (Nat.le_refl _) rfl) trivial

theorem leads_newObject {description : Class}
    (traced : description.Traced sources machine) :
    Leads sources machine (newObject description) fun later object =>
      object.Traced sources later := by
  intro tracedMachine
  have leads := tracedMachine.pushObject
  exact .ok leads (Class.Traced.mono traced leads.proceeds.toContinues)

theorem leads_field? (object : Nat) (name : String) :
    Leads sources machine (field? object name) fun later found =>
      later = machine ∧ ∀ value ∈ found, value.Traced sources machine := by
  intro traced
  refine .ok traced.still ⟨rfl, fun value isFound => ?_⟩
  rcases Option.bind_eq_some_iff.mp isFound with ⟨bindings, isObject, found⟩
  exact traced.fields object bindings name value isObject found

theorem leads_setField (object : Nat) (name : String) {value : Value}
    (traced : value.Traced sources machine) :
    Leads sources machine (setField object name value) fun _ _ => True :=
  fun tracedMachine => .ok (tracedMachine.setField object name traced) trivial

end Objects

/-! ## Methods -/

section Methods

variable {description : Class} {this : Value}

theorem leads_bindThis {method : Closure} (traced : method.Traced sources machine)
    (tracedThis : this.Traced sources machine) :
    Leads sources machine (bindThis method this) fun later bound =>
      bound.Traced sources later :=
  fun tracedMachine =>
    .ok (tracedMachine.pushWith traced.exists_ "this" tracedThis) ⟨by simp, traced.read⟩

theorem leads_boundMethod {method : Closure} (traced : method.Traced sources machine)
    (tracedThis : this.Traced sources machine) :
    Leads sources machine (boundMethod method this) fun later value =>
      value.Traced sources later := by
  apply (leads_bindThis traced tracedThis).bind
  intro between bound _ _ tracedBound
  apply leads_newIdentity.bind
  intro later identity _ leads _
  exact .pure (Closure.Traced.mono tracedBound leads.proceeds.toContinues)

theorem leads_method (traced : description.Traced sources machine) (name : Occurrence)
    (tracedThis : this.Traced sources machine) :
    Leads sources machine (method description name this) fun later value =>
      value.Traced sources later := by
  rw [method]
  cases found : description.findMethod? name.lexeme with
  | none => exact .throw _
  | some method => exact leads_boundMethod (traced.findMethod? found) tracedThis

theorem leads_property {value : Value} (traced : value.Traced sources machine)
    (name : Occurrence) :
    Leads sources machine (property value name) fun later result =>
      result.Traced sources later := by
  cases value with
  | object identity description =>
      apply (leads_field? identity name.lexeme).bind
      rintro _ found - - ⟨rfl, tracedField⟩
      cases found with
      | none => exact leads_method traced name traced
      | some value => exact .pure (tracedField value rfl)
  | nil | bool | number | string | function | native | classValue => exact .throw _

theorem leads_superMethod (keyword name : Occurrence) :
    Leads sources machine (superMethod keyword name) fun later value =>
      value.Traced sources later := by
  apply (leads_distanceOf keyword).bind
  rintro _ distance - - rfl
  cases distance with
  | none => exact .throw _
  | some distance =>
      apply (leads_localValue distance "super").bind
      rintro _ superclass - - ⟨rfl, tracedClass⟩
      apply (leads_localValue (distance - 1) "this").bind
      rintro _ this - - ⟨rfl, tracedThis⟩
      cases superclass with
      | classValue description => exact leads_method tracedClass name tracedThis
      | nil | bool | number | string | function | native | object => exact .throw _

end Methods

/-! ## Operators and calls -/

section Operators

theorem leads_ofOperator (token : Occurrence) {result : Except OperandFault Value}
    (traced : ∀ value, result = .ok value → value.Traced sources machine) :
    Leads sources machine (ofOperator token result) fun later value =>
      value.Traced sources later := by
  cases result with
  | ok value => exact .pure (traced value rfl)
  | error fault => exact .throw _

theorem leads_checkCall (paren : Occurrence) (callee : Value) (arguments : List Value) :
    Leads sources machine (checkCall paren callee arguments) fun later _ =>
      later = machine := by
  rw [checkCall]
  split
  case h_1 => exact .throw _
  case h_2 =>
      split
      · exact .pure rfl
      · exact .throw _

theorem leads_answer (answer : NativeAnswer) {arguments : List Value}
    (traced : ∀ argument ∈ arguments, argument.Traced sources machine) :
    Leads sources machine (Action.answer answer arguments) fun later value =>
      value.Traced sources later := by
  cases answer with
  | clock =>
      rw [Action.answer, map_eq_pure_bind]
      apply leads_readClock.bind
      exact fun _ _ _ _ _ => .pure trivial
  | constant value => exact .pure (Value.isPlain_literal value).traced
  | argument index =>
      rw [Action.answer]
      cases found : arguments[index]? with
      | none => exact .throw _
      | some value => exact .pure (traced value (List.mem_of_getElem? found))
  | computed compute =>
      rw [Action.answer]
      cases compute (arguments.map Value.literal?) with
      | none => exact .throw _
      | some value => exact .pure (Value.isPlain_literal value).traced

end Operators

/-! ## Declarations -/

section Declarations

theorem leads_declareFunction {routine : Routine} (read : sources.Read routine.references) :
    Leads sources machine (declareFunction routine) fun _ _ => True := by
  apply leads_currentFrame.bind
  rintro _ frame - - ⟨rfl, rfl⟩
  intro traced
  refine leads_newIdentity.bind ?_ traced
  intro later identity _ leads _
  have exists_ := Nat.lt_of_lt_of_le traced.exists_ leads.proceeds.frames
  exact leads_define _ (show Closure.Traced sources later _ from ⟨exists_, read⟩)

theorem leads_superclass (clause : Option Occurrence) :
    Leads sources machine (superclass clause) fun later found =>
      later = machine ∧ ∀ description ∈ found, description.Traced sources machine := by
  cases clause with
  | none => exact .pure ⟨rfl, nofun⟩
  | some name =>
      apply (leads_read name).bind
      rintro _ value - - ⟨rfl, traced⟩
      cases value with
      | classValue description =>
          refine .pure ⟨rfl, fun _ isFound => ?_⟩
          exact Option.some.inj isFound ▸ traced
      | nil | bool | number | string | function | native | object => exact .throw _

theorem leads_methodFrame {found : Option Class}
    (traced : ∀ description ∈ found, description.Traced sources machine) :
    Leads sources machine (methodFrame found) fun later frame =>
      frame < later.frames.size := by
  intro tracedMachine
  refine leads_currentFrame.bind ?_ tracedMachine
  rintro _ frame - - ⟨rfl, rfl⟩
  cases found with
  | none => exact .pure tracedMachine.exists_
  | some description =>
      apply (leads_newFrame tracedMachine.exists_).bind
      intro pushed inner _ leads exists_
      have tracedClass : Value.Traced sources pushed (.classValue description) :=
        Class.Traced.mono (traced description rfl) leads.proceeds.toContinues
      apply (leads_defineIn inner "super" tracedClass).bind
      intro later _ _ leads' _
      exact .pure (Nat.lt_of_lt_of_le exists_ leads'.proceeds.frames)

theorem leads_madeClass {name : Occurrence} {clause : Option Occurrence}
    {methods : List Routine} (read : ∀ method ∈ methods, sources.Read method.references) :
    Leads sources machine (madeClass name clause methods) fun later description =>
      description.Founded sources later ∧
        (∀ parent ∈ description.superclass, parent.Traced sources later) ∧
        machine.identities ≤ description.identity := by
  apply (leads_superclass clause).bind
  rintro machine superclass - - ⟨rfl, inherited⟩
  have begins : Leads sources machine (define name.lexeme .nil) fun _ _ => True :=
    leads_define _ trivial
  apply begins.bind
  intro second _ _ leads _
  apply (leads_methodFrame fun parent found =>
    (inherited parent found).mono leads.proceeds.toContinues).bind
  intro third frame _ leads' exists_
  have before := leads.proceeds.trans leads'.proceeds
  apply leads_newIdentity.bind
  rintro fourth _ _ leads'' ⟨rfl, next⟩
  have inherited' : ∀ parent ∈ superclass, parent.Traced sources third :=
    fun parent found => (inherited parent found).mono before.toContinues
  have founded : Class.Founded sources fourth
      ⟨third.identities, name.lexeme, superclass, Class.methodTable frame methods⟩ := by
    refine ⟨?_, fun asked method found => ?_, fun parent found => ?_⟩
    · exact next ▸ Nat.lt_succ_self _
    · apply Class.forall_methodTable _ found
      exact fun routine member =>
        ⟨Nat.lt_of_lt_of_le exists_ leads''.proceeds.frames, read routine member⟩
    · exact (inherited' parent found).founded.numbered
  exact .pure ⟨founded, fun parent found =>
    (inherited' parent found).mono leads''.proceeds.toContinues, before.identities⟩

theorem leads_declareClass {name : Occurrence} {clause : Option Occurrence}
    {methods : List Routine} (read : ∀ method ∈ methods, sources.Read method.references)
    (made : ∀ description later,
      madeClass name clause methods machine = .ok description later →
        sources.Made description) :
    Leads sources machine (declareClass name clause methods) fun _ _ => True := by
  rw [declareClass_eq_madeClass]
  apply (leads_madeClass read).bind
  rintro later description isMade - ⟨founded, inherited, -⟩
  exact leads_define _ (show Class.Traced sources later description from
    .of_founded (made description later isMade) founded inherited)

end Declarations

end Sources

end LoxLang
