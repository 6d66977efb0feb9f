import LoxLang.Proofs.Binding.Exactness
import LoxLang.Proofs.Construction.Executions
import LoxLang.Proofs.Machine.Restoration

/-! # Construction yields new objects

Every state that a session gets into by running source texts, with or without complaints,
is proper. So there a class makes an object that did not exist before, an initializer that
is called on its own delivers the object it is bound to, and a function that is just named
like one delivers what its body returns.
-/

namespace LoxLang

open LoxLang.Action Construction

/-! ## Texts -/

theorem Stmt.mentionsOfAll_append (first second : List Stmt) :
    mentionsOfAll (first ++ second) = mentionsOfAll first ++ mentionsOfAll second := by
  induction first with
  | nil => rfl
  | cons statement rest induction =>
      rw [List.cons_append, mentionsOfAll, mentionsOfAll, induction, List.append_assoc]

theorem Construction.leads_runProgram (budget : Budget) {machine : Machine}
    {statements : List Stmt}
    (proper : ∀ mention ∈ Stmt.mentionsOfAll statements, mention.Proper) :
    Leads machine (runProgram budget statements) fun _ _ => True := by
  induction statements generalizing machine with
  | nil => exact .pure trivial
  | cons statement rest induction =>
      obtain ⟨first, others⟩ := List.forall_mem_append.mp proper
      rw [runProgram]
      apply (leads_execute (callWithin_leads _ _) statement first).bind
      exact fun _ _ _ _ => induction others

theorem Machine.proper_bare (clock : Clock) : (Machine.bare clock).Proper := by
  refine ⟨?_, ?_, ?_, Nat.one_pos, here?_bare _ _ _⟩
  · intro frame name value found
    simp at found
  · intro object fields name value isObject
    simp [bare] at isObject
  · intro frame value found
    simp at found

theorem Machine.proper_initial (clock : Clock) : (Machine.initial clock).Proper := by
  have identified : Machine.Proper { Machine.bare clock with identities := 1 } :=
    (Machine.proper_bare clock).of_eq rfl rfl rfl
  exact identified.define Machine.globals trivial (by decide)

namespace Session

def Step.RunsText : Step → Prop
  | .run _ _ | .runUnchecked _ _ | .runBlock _ _ | .reset => True
  | .defineNative _ _ _ | .callGlobal _ _ _ => False

theorem proper_statementsOfBlock {statements : List Stmt}
    (proper : ∀ mention ∈ Stmt.mentionsOfAll statements, mention.Proper) :
    ∀ mention ∈ Stmt.mentionsOfAll (statementsOfBlock statements), mention.Proper := by
  unfold statementsOfBlock
  split
  case h_1 => exact (List.forall_mem_append.mp proper).1
  case h_2 => exact List.forall_mem_nil _

section Texts

variable {session : Session} (proper : session.machine.Proper)

include proper

theorem proper_accept (program : Program) : (session.accept program).machine.Proper :=
  proper.of_eq rfl rfl rfl

theorem proper_perform {action : Action α} {post : Machine → α → Prop}
    (leads : Leads session.machine action post) :
    (session.perform action).1.machine.Proper := by
  have ends := leads proper
  rw [perform]
  generalize action session.machine = outcome at ends ⊢
  cases ends with
  | ok leads _ => exact leads.proper.of_eq rfl rfl rfl
  | error leads => exact leads.proper.of_eq rfl rfl rfl

theorem proper_runUnchecked (budget : Budget) (source : String) :
    (session.runUnchecked budget source).1.machine.Proper :=
  proper_perform (proper_accept proper _)
    (leads_runProgram budget (Program.proper_mentions session.nextPlace source))

theorem proper_take {step : Step} (runsText : step.RunsText) :
    (session.take step).machine.Proper := by
  cases step with
  | run budget source =>
      have unchecked := proper_runUnchecked proper budget source
      simp only [take, run, runUnchecked] at unchecked ⊢
      split
      · split <;> exact unchecked
      · exact proper
  | runUnchecked budget source => exact proper_runUnchecked proper budget source
  | runBlock budget source =>
      apply proper_perform (proper_accept proper _)
      apply (leads_newFrame _).bind
      intro later frame _ new
      exact leads_within new.1 new.2 (executeAll_leads budget.rounds budget.depth _
        (proper_statementsOfBlock (Program.proper_mentions session.nextPlace source)))
  | defineNative | callGlobal => exact runsText.elim
  | reset => exact proper

theorem proper_takeAll {steps : List Step} (runText : ∀ step ∈ steps, step.RunsText) :
    (session.takeAll steps).machine.Proper := by
  induction steps generalizing session with
  | nil => exact proper
  | cons step rest induction =>
      obtain ⟨first, others⟩ := List.forall_mem_cons.mp runText
      exact induction (proper_take proper first) others

end Texts

/-- An execution that a session gets to while it runs a source text, be it a program or a
block, and whatever complaints there are about it. A text without complaints is run in the
same way. -/
inductive Undertakes (session : Session) (budget : Budget) (source : String) :
    Execution → Prop
  | statement {before after : List Stmt} {statement : Stmt} {machine : Machine}
      (statements : (Program.ofSource session.nextPlace source).statements =
        before ++ statement :: after)
      (done : runProgram budget before
        (session.accept (.ofSource session.nextPlace source)).machine = .ok () machine) :
      Undertakes session budget source ⟨budget.depth, .statement statement, machine⟩
  | block {frame : FrameId} {machine : Machine}
      (done : newFrame Machine.globals
        (session.accept (.ofSource session.nextPlace source)).machine = .ok frame machine) :
      Undertakes session budget source
        ⟨budget.depth, .statements
          (statementsOfBlock (Program.ofSource session.nextPlace source).statements),
          { machine with current := frame }⟩
  | part {whole part : Execution} (undertakes : Undertakes session budget source whole)
      (executes : Executes budget.rounds whole part) :
      Undertakes session budget source part

theorem Undertakes.proper {session : Session} {budget : Budget} {source : String}
    {execution : Execution} (undertakes : session.Undertakes budget source execution)
    (proper : session.machine.Proper) : execution.Proper := by
  have words := Program.proper_mentions session.nextPlace source
  induction undertakes with
  | statement statements done =>
      rw [statements, Stmt.mentionsOfAll_append, List.forall_mem_append] at words
      obtain ⟨leads, -⟩ :=
        (leads_runProgram budget words.1).ok (proper_accept proper _) done
      exact ⟨leads.proper, (List.forall_mem_append.mp words.2).1⟩
  | block done =>
      obtain ⟨leads, exists_, open_⟩ :=
        (leads_newFrame _).ok (proper_accept proper _) done
      exact ⟨leads.proper.inFrame exists_ open_, proper_statementsOfBlock words⟩
  | part _ executes induction => exact induction.executes executes

end Session

/-! ## States and calls -/

def Task.handedOver : Task → List Value
  | .call _ callee arguments => callee :: arguments
  | .closure _ arguments => arguments
  | _ => []

/-- A machine that running source texts leads to, between two texts or in the middle of
one, and the values that are handed over there. -/
inductive Session.Arrives (clock : Clock) : Machine → List Value → Prop
  | between {steps : List Step} (runText : ∀ step ∈ steps, step.RunsText) :
      Arrives clock ((start clock).takeAll steps).machine []
  | during {steps : List Step} {budget : Budget} {source : String} {execution : Execution}
      (runText : ∀ step ∈ steps, step.RunsText)
      (undertakes : ((start clock).takeAll steps).Undertakes budget source execution) :
      Arrives clock execution.machine execution.task.handedOver

/-- The value is found under a name or in a field, is handed over, or needs nothing but to
be written down. -/
inductive AtHand (machine : Machine) (handed : List Value) : Value → Prop
  | named {frame : FrameId} {name : String} {value : Value}
      (found : machine.frames.here? frame name = some value) : AtHand machine handed value
  | field {object : Nat} {fields : Bindings Value} {name : String} {value : Value}
      (isObject : machine.objects[object]? = some fields)
      (found : fields.get? name = some value) : AtHand machine handed value
  | handed {value : Value} (member : value ∈ handed) : AtHand machine handed value
  | plain {value : Value} (isPlain : value.IsPlain) : AtHand machine handed value

inductive CallEnds (budget : Budget) (machine : Machine) (callee : Value)
    (arguments : List Value) (result : Value) (later : Machine) : Prop
  | checked (paren : Occurrence)
      (done : callWithin budget.rounds (budget.depth + 1) paren callee arguments machine =
        .ok result later)
  | unchecked (done : callValue budget.runner callee arguments machine = .ok result later)

section Calls

variable {machine later : Machine} {handed : List Value}

theorem Session.Arrives.proper {clock : Clock} (arrives : Arrives clock machine handed) :
    machine.Proper ∧ ∀ value ∈ handed, value.Proper machine := by
  have started := Machine.proper_initial clock
  cases arrives with
  | between runText => exact ⟨proper_takeAll started runText, List.forall_mem_nil _⟩
  | @during _ _ _ execution runText undertakes =>
      obtain ⟨machine, task⟩ := undertakes.proper (proper_takeAll started runText)
      refine ⟨machine, ?_⟩
      rcases execution with ⟨depth, _ | _ | _ | _ | _ | _ | _, reached⟩
      case call => exact List.forall_mem_cons.mpr task
      case closure => exact task.2
      all_goals exact List.forall_mem_nil _

theorem AtHand.proper {value : Value} (atHand : AtHand machine handed value)
    (proper : machine.Proper) (properHanded : ∀ value ∈ handed, value.Proper machine) :
    value.Proper machine := by
  cases atHand with
  | named found => exact proper.values _ _ _ found
  | field isObject found => exact proper.fields _ _ _ _ isObject found
  | handed member => exact properHanded value member
  | plain isPlain => exact isPlain.proper

theorem CallEnds.callValue {budget : Budget} {callee result : Value}
    {arguments : List Value}
    (ends : CallEnds budget machine callee arguments result later) :
    Action.callValue budget.runner callee arguments machine = .ok result later := by
  cases ends with
  | checked paren done =>
      rw [callWithin] at done
      obtain ⟨_, between, checked, called⟩ := ok_of_bind_ok done
      obtain rfl := (leaves_of_ok checked).symm.trans (leaves_checkCall _ _ _ _)
      exact called
  | unchecked done => exact done

end Calls

/-- Construction yields new objects. In every state that running source texts leads to:

* Calling a class delivers an object of that class that did not exist before the call.
* Calling a method named `init` that is bound to an object delivers that object. Any other
  function delivers what its body returns, also one that is just named `init`.
* A method that an object takes from its class, or from another class as with `super`, is
  bound to the object, and keeps its name. A function that is declared is not bound to
  anything. -/
theorem construction_yields_new_objects (clock : Clock) {machine : Machine}
    {handed : List Value} (arrives : Session.Arrives clock machine handed) :
    (∀ budget description arguments result later,
      AtHand machine handed (.classValue description) →
      (∀ argument ∈ arguments, AtHand machine handed argument) →
      CallEnds budget machine (.classValue description) arguments result later →
        result = .object machine.objects.size description ∧
          machine.objects.size < later.objects.size ∧
          ∀ identity other, AtHand machine handed (.object identity other) →
            identity < machine.objects.size) ∧
      (∀ budget identity closure arguments result later,
        AtHand machine handed (.function identity closure) →
        (∀ argument ∈ arguments, AtHand machine handed argument) →
        CallEnds budget machine (.function identity closure) arguments result later →
          ∃ completion,
            executeBody budget.runner closure arguments machine = .ok completion later ∧
            (∀ this, closure.BoundTo machine.frames this →
              closure.routine.isNamedInit = true → result = this ∧ this.IsObject) ∧
            ((∀ this, ¬closure.BoundTo machine.frames this) ∨
              closure.routine.isNamedInit = false → result = completion.value)) ∧
      (∀ identity own description name value later,
        AtHand machine handed (.object identity own) →
        description = own ∨ AtHand machine handed (.classValue description) →
        method description name (.object identity own) machine = .ok value later →
          ∃ function closure, value = .function function closure ∧
            closure.BoundTo later.frames (.object identity own) ∧
            closure.routine.name.lexeme = name.lexeme) ∧
      ∀ routine this,
        ¬Closure.BoundTo machine.frames ⟨routine, machine.current, false⟩ this := by
  obtain ⟨proper, properHanded⟩ := arrives.proper
  have properAtHand : ∀ {value}, AtHand machine handed value → value.Proper machine :=
    fun atHand => atHand.proper proper properHanded
  refine ⟨?_, ?_, ?_, ?_⟩
  · intro budget description arguments result later atHand argumentsAtHand ends
    have properArguments := fun argument member =>
      properAtHand (argumentsAtHand argument member)
    obtain ⟨delivered, grown⟩ := construct_delivers (executeAll_leads _ _) proper
      (properAtHand atHand) properArguments ends.callValue
    exact ⟨delivered, grown, fun _ _ other => (properAtHand other).1⟩
  · intro budget identity closure arguments result later atHand argumentsAtHand ends
    have properClosure : closure.Proper machine.frames := properAtHand atHand
    obtain ⟨completion, executed, delivered⟩ := callClosure_delivers (executeAll_leads _ _)
      proper properClosure (fun argument member =>
        properAtHand (argumentsAtHand argument member)) ends.callValue
    refine ⟨completion, executed, ?_, ?_⟩
    · intro this bound named
      rw [if_pos (properClosure.isInitializer_iff.mpr ⟨⟨this, bound⟩, named⟩)] at delivered
      obtain rfl := Option.some.inj (delivered.symm.trans bound)
      exact ⟨rfl, proper.objects _ _ bound⟩
    · intro plain
      have other : ¬closure.isInitializer = true := by
        rw [properClosure.isInitializer_iff]
        rintro ⟨⟨this, bound⟩, named⟩
        rcases plain with unbound | unnamed
        · exact unbound this bound
        · cases unnamed.symm.trans named
      rwa [if_neg other] at delivered
  · intro identity own description name value later atHand classAtHand taken
    have properObject := properAtHand atHand
    have properClass : description.Proper machine.frames := by
      rcases classAtHand with rfl | classAtHand
      · exact properObject.2
      · exact properAtHand classAtHand
    obtain ⟨-, function, closure, rfl, -, bound, named⟩ :=
      (leads_method properClass name properObject trivial).ok proper taken
    exact ⟨function, closure, rfl, bound, named⟩
  · intro routine this bound
    cases proper.open_.symm.trans bound

/-- An initializer that returns a value, in a program that has not been checked. -/
theorem construction_yields_new_objects_returning :
    let source := "class A { init() { return nil; } } A();"
    ∃ paren description machine result later,
      (Session.start 0).Undertakes ⟨1, 1⟩ source
          ⟨1, .call paren (.classValue description) [], machine⟩ ∧
        description.initializer?.isSome = true ∧
        CallEnds ⟨0, 1⟩ machine (.classValue description) [] result later ∧
        result = .object machine.objects.size description ∧
        machine.objects.size < later.objects.size := by
  intro source
  let keyword : Occurrence := ⟨⟨.keyword .returnWord, "return", .nil, 1⟩, 7⟩
  let routine : Routine :=
    .mk ⟨.identifier "init" 1, 3⟩ [] [.returns keyword (some (.literal .nil))]
  let declaration : Stmt := .classDecl ⟨.identifier "A" 1, 1⟩ none [routine]
  let paren : Occurrence := ⟨⟨.symbol .rightParen, ")", .nil, 1⟩, 14⟩
  let call : Stmt := .expression (.call (.variable ⟨.identifier "A" 1, 12⟩) paren [])
  have program : Program.ofSource (Session.start 0).nextPlace source =
      ⟨[declaration, call], [], [], 16⟩ := by cbv
  have statements : (Program.ofSource (Session.start 0).nextPlace source).statements =
      [declaration] ++ call :: [] := by
    rw [program]
    rfl
  let description : Class := ⟨1, "A", none, ⟨[("init", ⟨routine, 0, true⟩)]⟩⟩
  let machine : Machine :=
    { frames := ⟨#[⟨⟨[("clock", .native ⟨0, 0, .clock⟩), ("A", .classValue description)]⟩,
        none⟩]⟩
      current := 0, objects := #[], distances := .empty, printed := #[], identities := 2
      clock := 0 }
  have start : ((Session.start 0).accept
      (.ofSource (Session.start 0).nextPlace source)).machine = Machine.initial 0 := by
    rw [program]
    cbv
  have done : runProgram ⟨1, 1⟩ [declaration]
      ((Session.start 0).accept (.ofSource (Session.start 0).nextPlace source)).machine =
        .ok () machine := by
    rw [start]
    rfl
  have found : read ⟨.identifier "A" 1, 12⟩ machine =
      .ok (.classValue description) machine := rfl
  obtain ⟨result, later, called⟩ : ∃ result later,
      callWithin 1 1 paren (.classValue description) [] machine = .ok result later :=
    ⟨_, _, rfl⟩
  clear_value machine
  have called' : (Session.start 0).Undertakes ⟨1, 1⟩ source
      ⟨1, .statement call, machine⟩ := .statement statements done
  have calling := (called'.part .inner).part (.call found rfl)
  have ends : CallEnds ⟨0, 1⟩ machine (.classValue description) [] result later :=
    .checked paren called
  have runText : ∀ step ∈ ([] : List Session.Step), step.RunsText := List.forall_mem_nil _
  obtain ⟨delivered, grown, -⟩ :=
    (construction_yields_new_objects 0 (.during runText calling)).1 _ _ _ _ _
      (.handed (.head _)) (List.forall_mem_nil _) ends
  exact ⟨paren, description, machine, result, later, calling, rfl, ends, delivered, grown⟩

end LoxLang
