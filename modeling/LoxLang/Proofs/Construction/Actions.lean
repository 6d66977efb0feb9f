import LoxLang.Proofs.Construction.Values
import LoxLang.Proofs.Names.Evaluation

/-! # What single actions do to proper machines

Whether or not the references of a program are bound, whatever is done on a proper machine
leads to a proper machine on which all that there was is still the same, and delivers
proper values. Binding a method is all that gives a frame a `this`.
-/

namespace LoxLang.Construction

open LoxLang.Action

inductive Ends {α : Type} (machine : Machine) (post : Machine → α → Prop) :
    EStateM.Result Stop Machine α → Prop
  | ok {result : α} {later : Machine} (leads : machine.LeadsTo later)
      (results : post later result) : Ends machine post (.ok result later)
  | error {stop : Stop} {later : Machine} (leads : machine.LeadsTo later) :
      Ends machine post (.error stop later)

/-- If the machine is proper, the action leads to a later one. -/
def Leads {α : Type} (machine : Machine) (action : Action α) (post : Machine → α → Prop) :
    Prop :=
  machine.Proper → Ends machine post (action machine)

variable {machine later : Machine} {α β : Type} {post : Machine → α → Prop}

theorem Ends.imp {stronger : Machine → α → Prop} {outcome : EStateM.Result Stop Machine α}
    (ends : Ends machine stronger outcome)
    (implies : ∀ later result, machine.LeadsTo later → stronger later result →
      post later result) : Ends machine post outcome := by
  cases ends with
  | ok leads results => exact .ok leads (implies _ _ leads results)
  | error leads => exact .error leads

theorem Ends.from {outcome : EStateM.Result Stop Machine α} (ends : Ends later post outcome)
    (before : machine.LeadsTo later) : Ends machine post outcome := by
  cases ends with
  | ok leads results => exact .ok (before.trans leads) results
  | error leads => exact .error (before.trans leads)

namespace Leads

theorem pure {result : α} (results : post machine result) :
    Leads machine (pure result) post :=
  fun proper => .ok proper.still results

theorem throw (stop : Stop) : Leads machine (throw stop : Action α) post :=
  fun proper => .error proper.still

theorem bind {action : Action β} {next : β → Action α} {middle : Machine → β → Prop}
    (first : Leads machine action middle)
    (second : ∀ later result, machine.LeadsTo later → middle later result →
      Leads later (next result) post) : Leads machine (action >>= next) post := by
  intro proper
  change Ends machine post (EStateM.bind action next machine)
  have ends := first proper
  simp only [EStateM.bind]
  generalize action machine = outcome at ends ⊢
  cases ends with
  | ok leads results => exact (second _ _ leads results leads.proper).from leads
  | error leads => exact .error leads

theorem imp {action : Action α} {stronger : Machine → α → Prop}
    (leads : Leads machine action stronger)
    (implies : ∀ later result, machine.LeadsTo later → stronger later result →
      post later result) : Leads machine action post :=
  fun proper => (leads proper).imp implies

theorem ok {action : Action α} {result : α} (leads : Leads machine action post)
    (proper : machine.Proper) (done : action machine = .ok result later) :
    machine.LeadsTo later ∧ post later result := by
  have ends := leads proper
  rw [done] at ends
  cases ends with
  | ok leads results => exact ⟨leads, results⟩

end Leads

/-! ## Frames -/

section Frames

theorem leads_currentFrame : Leads machine currentFrame fun later frame =>
    later = machine ∧ frame = machine.current :=
  fun proper => .ok proper.still ⟨rfl, rfl⟩

theorem leads_newFrame (enclosing : FrameId) :
    Leads machine (newFrame enclosing) fun later frame =>
      frame < later.frames.size ∧ later.frames.here? frame "this" = none :=
  fun proper => .ok ⟨proper.push _, .push _ _, rfl⟩ ⟨by simp, Frames.here?_push_size _ _⟩

theorem leads_defineIn {frame : FrameId} {name : String} {value : Value}
    (proper : value.Proper machine) (different : name ≠ "this") :
    Leads machine (defineIn frame name value) fun _ _ => True :=
  fun properMachine =>
    .ok ⟨properMachine.define frame proper different, .define _ _ _ different, rfl⟩ trivial

theorem leads_define {name : String} {value : Value} (proper : value.Proper machine)
    (different : name ≠ "this") : Leads machine (define name value) fun _ _ => True := by
  apply leads_currentFrame.bind
  rintro _ frame - ⟨rfl, rfl⟩
  exact leads_defineIn proper different

theorem leads_defineAll {frame : FrameId} :
    ∀ {names : List Occurrence} {values : List Value} {machine : Machine},
      (∀ name ∈ names, name.lexeme ≠ "this") → (∀ value ∈ values, value.Proper machine) →
        Leads machine (defineAll frame names values) fun _ _ => True
  | [], _, _, _, _ => .pure trivial
  | _ :: _, [], _, _, _ => .pure trivial
  | name :: names, value :: values, machine, different, proper => by
      rw [List.forall_mem_cons] at different proper
      rw [defineAll]
      apply (leads_defineIn proper.1 different.1).bind
      intro later _ leads _
      exact leads_defineAll different.2 fun other member =>
        (proper.2 other member).mono leads.precedes

theorem leads_within {frame : FrameId} {action : Action Completion}
    (exists_ : frame < machine.frames.size)
    (open_ : machine.frames.here? frame "this" = none)
    (leads : Leads { machine with current := frame } action fun later completion =>
      completion.value.Proper later) :
    Leads machine (within frame action) fun later completion =>
      completion.value.Proper later := by
  intro proper
  have back : ∀ reached : Machine,
      Machine.LeadsTo { machine with current := frame } reached →
        machine.LeadsTo { reached with current := machine.current } := by
    intro reached there
    have precedes : machine.Precedes reached :=
      ⟨there.precedes.frames, there.precedes.this, there.precedes.objects⟩
    have exists' := Nat.lt_of_lt_of_le proper.exists_ precedes.frames
    have open' := (precedes.this _ proper.exists_).trans proper.open_
    exact ⟨there.proper.inFrame exists' open', ⟨precedes.frames, precedes.this,
      precedes.objects⟩, rfl⟩
  have ends := leads (proper.inFrame exists_ open_)
  simp only [within]
  generalize action { machine with current := frame } = outcome at ends ⊢
  cases ends with
  | @ok _ reached there results =>
      exact .ok (back reached there) (results.mono (.of_eq rfl (Nat.le_refl _)))
  | @error _ reached there => exact .error (back reached there)

end Frames

/-! ## References -/

section References

theorem leads_distanceOf (reference : Occurrence) :
    Leads machine (distanceOf reference) fun later _ => later = machine :=
  fun proper => .ok proper.still rfl

theorem leads_frameAt (distance : Nat) :
    Leads machine (frameAt distance) fun later _ => later = machine := by
  intro proper
  rw [frameAt]
  cases machine.frames.ancestor? machine.current distance with
  | none => exact .error proper.still
  | some frame => exact .ok proper.still rfl

theorem leads_valueIn (frame : FrameId) (name : String) :
    Leads machine (valueIn frame name) fun later value =>
      later = machine ∧ value.Proper machine ∧ (name = "this" → value.IsObject) := by
  intro proper
  rw [valueIn]
  cases found : machine.frames.here? frame name with
  | none => exact .error proper.still
  | some value =>
      refine .ok proper.still ⟨rfl, proper.values _ _ _ found, ?_⟩
      rintro rfl
      exact proper.objects frame value found

theorem leads_localValue (distance : Nat) (name : String) :
    Leads machine (localValue distance name) fun later value =>
      later = machine ∧ value.Proper machine ∧ (name = "this" → value.IsObject) := by
  apply (leads_frameAt distance).bind
  rintro _ frame - rfl
  exact leads_valueIn frame name

theorem leads_globalValue (name : Occurrence) :
    Leads machine (globalValue name) fun later value =>
      later = machine ∧ value.Proper machine := by
  intro proper
  rw [globalValue]
  cases found : machine.frames.get? Machine.globals name.lexeme with
  | none => exact .error proper.still
  | some value =>
      obtain ⟨home, -, here⟩ := Option.bind_eq_some_iff.mp found
      exact .ok proper.still ⟨rfl, proper.values _ _ _ here⟩

theorem leads_read (reference : Occurrence) :
    Leads machine (read reference) fun later value =>
      later = machine ∧ value.Proper machine := by
  apply (leads_distanceOf reference).bind
  rintro _ distance - rfl
  cases distance with
  | none => exact leads_globalValue reference
  | some distance =>
      apply (leads_localValue distance reference.lexeme).imp
      exact fun _ _ _ found => ⟨found.1, found.2.1⟩

theorem leads_assignGlobal {name : Occurrence} {value : Value}
    (proper : value.Proper machine) (different : name.lexeme ≠ "this") :
    Leads machine (assignGlobal name value) fun _ _ => True := by
  intro properMachine
  rw [assignGlobal]
  cases assigned : machine.frames.assign? Machine.globals name.lexeme value with
  | none => exact .error properMachine.still
  | some frames =>
      obtain ⟨home, -, rfl⟩ := Option.map_eq_some_iff.mp assigned
      exact .ok ⟨properMachine.define home proper different, .define _ _ _ different, rfl⟩
        trivial

theorem leads_assign {reference : Occurrence} {value : Value}
    (proper : value.Proper machine) (different : reference.lexeme ≠ "this") :
    Leads machine (assign reference value) fun _ _ => True := by
  apply (leads_distanceOf reference).bind
  rintro _ distance - rfl
  cases distance with
  | none => exact leads_assignGlobal proper different
  | some distance =>
      apply (leads_frameAt distance).bind
      rintro _ frame - rfl
      exact leads_defineIn proper different

end References

/-! ## Objects, output and clock -/

section Objects

theorem leads_newIdentity : Leads machine newIdentity fun _ _ => True :=
  fun proper => .ok (proper.leadsTo rfl rfl rfl) trivial

theorem leads_print (text : String) : Leads machine (print text) fun _ _ => True :=
  fun proper => .ok (proper.leadsTo rfl rfl rfl) trivial

theorem leads_readClock : Leads machine readClock fun _ _ => True :=
  fun proper => .ok (proper.leadsTo rfl rfl rfl) trivial

theorem leads_newObject {description : Class} (proper : description.Proper machine.frames) :
    Leads machine (newObject description) fun later object =>
      object = .object machine.objects.size description ∧ object.Proper later := by
  intro properMachine
  have precedes : machine.Precedes
      { machine with objects := machine.objects.push Bindings.empty } :=
    .of_eq rfl (by simp)
  exact .ok ⟨properMachine.pushObject, precedes, rfl⟩ ⟨rfl, by simp, proper⟩

theorem leads_field? (object : Nat) (name : String) :
    Leads machine (field? object name) fun later found =>
      later = machine ∧ ∀ value ∈ found, value.Proper machine := by
  intro proper
  refine .ok proper.still ⟨rfl, fun value isFound => ?_⟩
  obtain ⟨bindings, isObject, found⟩ := Option.bind_eq_some_iff.mp isFound
  exact proper.fields object bindings name value isObject found

theorem leads_setField (object : Nat) (name : String) {value : Value}
    (proper : value.Proper machine) :
    Leads machine (setField object name value) fun _ _ => True :=
  fun properMachine =>
    .ok ⟨properMachine.setField object name proper, .of_eq rfl (by simp), rfl⟩ trivial

end Objects

/-! ## Methods -/

section Methods

variable {description : Class} {this : Value}

def Binds (machine : Machine) (this : Value) (name : String) (value : Value) : Prop :=
  ∃ identity bound, value = .function identity bound ∧ bound.Proper machine.frames ∧
    bound.BoundTo machine.frames this ∧ bound.routine.name.lexeme = name

theorem Binds.proper {name : String} {value : Value}
    (binds : Binds machine this name value) : value.Proper machine := by
  obtain ⟨identity, bound, rfl, proper, -⟩ := binds
  exact proper

theorem leads_bindThis {method : Closure} (proper : method.ProperMethod machine.frames)
    (properThis : this.Proper machine) (isObject : this.IsObject) :
    Leads machine (bindThis method this) fun later bound =>
      (bound.Proper later.frames ∧ bound.BoundTo later.frames this) ∧
        bound.routine = method.routine :=
  fun properMachine =>
    .ok ⟨properMachine.pushWith method.frame "this" properThis fun _ => isObject,
      .pushWith _ _ _ _, rfl⟩ ⟨proper.bind this, rfl⟩

theorem leads_boundMethod {method : Closure} (proper : method.ProperMethod machine.frames)
    (properThis : this.Proper machine) (isObject : this.IsObject) :
    Leads machine (boundMethod method this) fun later value =>
      Binds later this method.routine.name.lexeme value := by
  apply (leads_bindThis proper properThis isObject).bind
  rintro later bound _ ⟨⟨properBound, isBound⟩, routine⟩
  apply leads_newIdentity.bind
  intro latest identity leads _
  exact .pure ⟨identity, bound, rfl, properBound.mono leads.precedes,
    (properBound.boundTo_iff leads.precedes).mpr isBound, by rw [routine]⟩

theorem leads_method (proper : description.Proper machine.frames) (name : Occurrence)
    (properThis : this.Proper machine) (isObject : this.IsObject) :
    Leads machine (method description name this) fun later value =>
      Binds later this name.lexeme value := by
  rw [method]
  cases found : description.findMethod? name.lexeme with
  | none => exact .throw _
  | some method =>
      obtain ⟨properMethod, named⟩ := proper _ method found
      rw [← named]
      exact leads_boundMethod properMethod properThis isObject

theorem leads_property {value : Value} (proper : value.Proper machine) (name : Occurrence) :
    Leads machine (property value name) fun later result => result.Proper later := by
  cases value with
  | object identity description =>
      apply (leads_field? identity name.lexeme).bind
      rintro _ found - ⟨rfl, properFound⟩
      cases found with
      | none =>
          apply (leads_method proper.2 name proper trivial).imp
          exact fun _ _ _ binds => binds.proper
      | some value => exact .pure (properFound value rfl)
  | nil | bool | number | string | function | native | classValue => exact .throw _

theorem leads_superMethod (keyword name : Occurrence) :
    Leads machine (superMethod keyword name) fun later value => value.Proper later := by
  apply (leads_distanceOf keyword).bind
  rintro _ distance - rfl
  cases distance with
  | none => exact .throw _
  | some distance =>
      apply (leads_localValue distance "super").bind
      rintro _ superclass - ⟨rfl, properClass, -⟩
      apply (leads_localValue (distance - 1) "this").bind
      rintro _ this - ⟨rfl, properThis, isObject⟩
      cases superclass with
      | classValue description =>
          apply (leads_method properClass name properThis (isObject rfl)).imp
          exact fun _ _ _ binds => binds.proper
      | nil | bool | number | string | function | native | object => exact .throw _

end Methods

/-! ## Operators and calls -/

section Operators

theorem leads_ofOperator (token : Occurrence) {result : Except OperandFault Value}
    (proper : ∀ value, result = .ok value → value.Proper machine) :
    Leads machine (ofOperator token result) fun later value => value.Proper later := by
  cases result with
  | ok value => exact .pure (proper value rfl)
  | error fault => exact .throw _

theorem leads_checkCall (paren : Occurrence) (callee : Value) (arguments : List Value) :
    Leads machine (checkCall paren callee arguments) fun later _ => later = machine := by
  rw [checkCall]
  split
  case h_1 => exact .throw _
  case h_2 =>
      split
      · exact .pure rfl
      · exact .throw _

theorem leads_answer (answer : NativeAnswer) {arguments : List Value}
    (proper : ∀ argument ∈ arguments, argument.Proper machine) :
    Leads machine (Action.answer answer arguments) fun later value =>
      value.Proper later := by
  cases answer with
  | clock =>
      rw [Action.answer, map_eq_pure_bind]
      apply leads_readClock.bind
      exact fun _ _ _ _ => .pure trivial
  | constant value => exact .pure (Value.isPlain_literal value).proper
  | argument index =>
      rw [Action.answer]
      cases found : arguments[index]? with
      | none => exact .throw _
      | some value => exact .pure (proper value (List.mem_of_getElem? found))
  | computed compute =>
      rw [Action.answer]
      cases compute (arguments.map Value.literal?) with
      | none => exact .throw _
      | some value => exact .pure (Value.isPlain_literal value).proper

theorem leads_repeatWhile {condition : Action Bool} {body : Action Completion}
    (tested : ∀ machine, Leads machine condition fun _ _ => True)
    (done : ∀ machine, Leads machine body fun later completion =>
      completion.value.Proper later) :
    ∀ (limit : Nat) (machine : Machine), Leads machine (repeatWhile condition body limit)
      fun later completion => completion.value.Proper later
  | 0, _ => .throw _
  | limit + 1, machine => by
      rw [repeatWhile]
      apply (tested machine).bind
      intro between goesOn _ _
      cases goesOn with
      | false => exact .pure trivial
      | true =>
          apply (done between).bind
          intro later completion _ proper
          cases completion with
          | finished => exact leads_repeatWhile tested done limit later
          | returned value => exact .pure proper

end Operators

/-! ## Declarations -/

section Declarations

theorem leads_declareFunction {routine : Routine} (proper : routine.Proper)
    (different : routine.name.lexeme ≠ "this") :
    Leads machine (declareFunction routine) fun _ _ => True := by
  apply leads_currentFrame.bind
  rintro _ frame - ⟨rfl, rfl⟩
  apply leads_newIdentity.bind
  intro later identity leads _
  have proper' : Closure.Proper later.frames ⟨routine, later.current, false⟩ :=
    ⟨proper, leads.proper.exists_, by rw [leads.proper.open_]; rfl⟩
  rw [leads.current] at proper'
  exact leads_define proper' different

theorem leads_superclass (clause : Option Occurrence) :
    Leads machine (superclass clause) fun later found =>
      ∀ description ∈ found, description.Proper later.frames := by
  cases clause with
  | none => exact .pure nofun
  | some name =>
      apply (leads_read name).bind
      rintro _ value - ⟨rfl, proper⟩
      cases value with
      | classValue description =>
          refine .pure fun _ isFound => ?_
          exact Option.some.inj isFound ▸ proper
      | nil | bool | number | string | function | native | object => exact .throw _

theorem leads_methodFrame {found : Option Class}
    (proper : ∀ description ∈ found, description.Proper machine.frames) :
    Leads machine (methodFrame found) fun later frame => frame < later.frames.size := by
  intro properMachine
  apply leads_currentFrame.bind _ properMachine
  rintro _ frame - ⟨rfl, rfl⟩
  cases found with
  | none => exact .pure properMachine.exists_
  | some description =>
      apply (leads_newFrame _).bind
      intro pushed inner leads new
      have properClass : Value.Proper pushed (.classValue description) :=
        Class.Proper.mono (proper description rfl) leads.precedes
      apply (leads_defineIn properClass (by decide)).bind
      intro later _ leads' _
      exact .pure (Nat.lt_of_lt_of_le new.1 leads'.precedes.frames)

theorem leads_declareClass {name : Occurrence} {clause : Option Occurrence}
    {methods : List Routine} (different : name.lexeme ≠ "this")
    (proper : ∀ method ∈ methods, method.Proper) :
    Leads machine (declareClass name clause methods) fun _ _ => True := by
  apply (leads_superclass clause).bind
  intro first superclass _ inherited
  have begins : Leads first (define name.lexeme .nil) fun _ _ => True :=
    leads_define trivial different
  apply begins.bind
  intro second _ leads _
  apply (leads_methodFrame fun description found =>
    (inherited description found).mono leads.precedes).bind
  intro third frame leads' inside
  apply leads_newIdentity.bind
  intro fourth identity leads'' _
  refine leads_define ?_ different
  refine Class.proper_mk ?_ fun parent found =>
    (((inherited parent found).mono leads.precedes).mono leads'.precedes).mono
      leads''.precedes
  intro asked method found
  apply Class.forall_methodTable _ found
  intro routine member
  have inside' := Nat.lt_of_lt_of_le inside leads''.precedes.frames
  exact ⟨⟨proper routine member, inside', rfl⟩, rfl⟩

end Declarations

end LoxLang.Construction
