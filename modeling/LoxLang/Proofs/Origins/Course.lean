import LoxLang.Proofs.Origins.Executions

/-! # Classes and frames in the course of executions

While programs run, frames stay enclosed as they are, and every class that is made gets a
number that lies between those given out before and those given out later. As executions
follow one another, two classes with one number have been made by the same declaration on
the same machine, so they are one class.
-/

namespace LoxLang

open LoxLang.Action Sources

variable {sources : Sources} {rounds : Nat} {machine : Machine}

/-! ## Executions -/

namespace Execution

variable {whole part execution : Execution}

theorem Traced.of_executes (traced : whole.Traced sources rounds)
    (executes : Executes rounds whole part) : part.Traced sources rounds :=
  traced.executes (fun _ tracedPart => tracedPart.sound) executes

theorem Traced.changes {before after : Machine} (traced : execution.Traced sources rounds)
    (changes : Changes rounds execution before after) : before.Proceeds after := by
  have machine := traced.machine
  cases changes with
  | assigned done =>
      have value := (traced.of_executes .assigned).sound.expression
      rcases value.ok machine done with ⟨leads, tracedValue⟩
      exact ((leads_assign _ tracedValue).leaves leads.traced).proceeds
  | property done =>
      have object := (traced.of_executes .getObject).sound.expression
      rcases object.ok machine done with ⟨leads, tracedObject⟩
      exact ((leads_property tracedObject _).leaves leads.traced).proceeds
  | fieldSet done done' =>
      have object := (traced.of_executes .setObject).sound.expression
      have leads := (object.ok machine done).1
      have value := (traced.of_executes (.setValue done)).sound.expression
      rcases value.ok leads.traced done' with ⟨leads', tracedValue⟩
      exact ((leads_setField _ _ tracedValue).leaves leads'.traced).proceeds
  | superMethod => exact ((leads_superMethod _ _).leaves machine).proceeds
  | block => exact ((leads_newFrame machine.exists_).leaves machine).proceeds
  | classDeclared =>
      have read := (of_append traced.task).2
      have declares := leads_declareClass
        (fun _ member => sources.fewer read (Routine.references_subset member))
        fun description _ made => traced.makes description (.declared made)
      exact (declares.leaves machine).proceeds
  | functionDeclared => exact ((leads_declareFunction traced.task).leaves machine).proceeds
  | printed done =>
      have value := (traced.of_executes .printed).sound.expression
      have leads := (value.ok machine done).1
      exact ((leads_print _).leaves leads.traced).proceeds
  | @variableDefined _ _ initializer _ _ _ done =>
      cases initializer with
      | none =>
          cases done
          exact .define _ _ _ _
      | some value =>
          have value := (traced.of_executes .initializer).sound.expression
          rcases value.ok machine done with ⟨leads, tracedValue⟩
          exact ((leads_define _ tracedValue).leaves leads.traced).proceeds
  | answered => exact ((leads_answer _ traced.task.2).leaves machine).proceeds
  | objectMade => exact ((leads_newObject traced.task.1).leaves machine).proceeds
  | initializerBound found made =>
      have tracedClass : Class.Traced sources _ _ := traced.task.1
      rcases (leads_newObject tracedClass).ok machine made with ⟨leads, tracedObject⟩
      have tracedMethod := (tracedClass.findMethod? found).mono leads.proceeds.toContinues
      exact ((leads_bindThis tracedMethod tracedObject).leaves leads.traced).proceeds
  | parametersBound =>
      exact ((leads_parameterFrame traced.task.1 traced.task.2).leaves machine).proceeds

theorem governs_traced (sources : Sources) (rounds : Nat) :
    progress.Governs rounds (Execution.Traced sources rounds) where
  parts traced executes _ := traced.of_executes executes
  changes traced changes _ := traced.changes changes

theorem Makes.between {description : Class} (makes : execution.Makes rounds description)
    (traced : execution.Traced sources rounds) :
    execution.machine.identities ≤ description.identity ∧
      description.identity < (execution.leaves rounds).identities := by
  have governs := governs_traced sources rounds
  induction makes with
  | @declared depth name clause methods description machine later made =>
      have read := (of_append traced.task).2
      rcases (leads_madeClass fun _ member =>
        sources.fewer read (Routine.references_subset member)).ok traced.machine made with
        ⟨leads, founded, -, younger⟩
      refine ⟨younger, Nat.lt_of_lt_of_le founded.numbered (Nat.le_of_eq ?_)⟩
      simp only [leaves, Stmt.execute]
      rw [leaves_bind_of_still fun _ _ => rfl, declareClass_eq_madeClass,
        leaves_bind_of_ok made]
      rfl
  | part executes _ induction =>
      rcases induction (traced.of_executes executes) with ⟨younger, older⟩
      exact ⟨Nat.le_trans (governs.starts traced executes).identities younger,
        Nat.lt_of_lt_of_le older (governs.ends traced executes).identities⟩

theorem Makes.unique_of_apart {other : Execution} {description description' : Class}
    (apart : progress.Apart rounds execution other)
    (makes : execution.Makes rounds description) (makes' : other.Makes rounds description')
    (traced : execution.Traced sources rounds) (traced' : other.Traced sources rounds)
    (numbers : description.identity = description'.identity) : execution = other := by
  rcases makes.between traced with ⟨younger, older⟩
  rcases makes'.between traced' with ⟨younger', older'⟩
  rcases apart with same | before | behind
  · exact same
  · have := before.identities
    omega
  · have := behind.identities
    omega

/-- Classes with one number that are made in the course of an execution are the same. -/
theorem Makes.unique {description description' : Class}
    (makes : execution.Makes rounds description)
    (makes' : execution.Makes rounds description')
    (traced : execution.Traced sources rounds)
    (numbers : description.identity = description'.identity) :
    description = description' := by
  have governs := governs_traced sources rounds
  -- Down to the declaration both classes are made in the same part each time, because what
  -- other parts make lies before or behind.
  induction makes with
  | declared made =>
      cases makes' with
      | declared made' =>
          cases made.symm.trans made'
          rfl
      | part executes => cases executes
  | part executes makes induction =>
      cases makes' with
      | declared => cases executes
      | part executes' makes' =>
          have tracedPart := traced.of_executes executes
          rcases Makes.unique_of_apart (governs.apart traced executes executes') makes makes'
            tracedPart (traced.of_executes executes') numbers with rfl
          exact induction makes' tracedPart numbers

end Execution

/-! ## Works -/

theorem admits_progress : progress.Admits where
  newFrame machine frame := .push machine frame
  newObject _ _ := .of_eq rfl (fun _ => rfl) (Nat.le_refl _) rfl
  bindThis machine method object := .pushWith machine method.frame "this" object

namespace Work

def Makes (work : Work) (machine : Machine) (description : Class) : Prop :=
  ∃ execution, work.Begins machine execution ∧
    execution.Makes work.budget.rounds description

/-- What a work needs before it can be traced: its references have been read together, or
the values that it begins with can be traced. -/
def Prepared (sources : Sources) (machine : Machine) : Work → Prop
  | program _ statements | block _ statements =>
    sources.Read (Stmt.referencesOfAll statements)
  | call _ callee arguments =>
    callee.Traced sources machine ∧ ∀ argument ∈ arguments, argument.Traced sources machine

structure Traced (sources : Sources) (machine : Machine) (work : Work) : Prop where
  begun : machine.Traced sources
  prepared : work.Prepared sources machine
  makes : ∀ description, work.Makes machine description → sources.Made description

variable {work : Work} {execution : Execution}

theorem Traced.rest {budget : Budget} {statement : Stmt} {rest : List Stmt}
    {completion : Completion} {reached : Machine}
    (traced : (program budget (statement :: rest)).Traced sources machine)
    (done : statement.execute budget.caller budget.rounds machine =
      .ok completion reached) : (program budget rest).Traced sources reached := by
  have first : Execution.Traced sources budget.rounds
      ⟨budget.depth, .statement statement, machine⟩ :=
    ⟨traced.begun, (of_append traced.prepared).1,
      fun description makes => traced.makes description ⟨_, .statement, makes⟩⟩
  refine ⟨(first.sound.statement.ok traced.begun done).1.traced,
    (of_append traced.prepared).2, fun description makes => ?_⟩
  rcases makes with ⟨execution, begins, makes⟩
  exact traced.makes description ⟨execution, .otherStatements done begins, makes⟩

theorem Begins.traced (begins : work.Begins machine execution)
    (traced : work.Traced sources machine) :
    execution.Traced sources work.budget.rounds := by
  have makes : ∀ description, execution.Makes work.budget.rounds description →
      sources.Made description :=
    fun description makes => traced.makes description ⟨execution, begins, makes⟩
  induction begins with
  | statement => exact ⟨traced.begun, (of_append traced.prepared).1, makes⟩
  | otherStatements done _ induction => exact induction (traced.rest done) makes
  | block done =>
      have exists_ := Nat.zero_lt_of_lt traced.begun.exists_
      rcases (leads_newFrame exists_).ok traced.begun done with ⟨leads, new⟩
      exact ⟨leads.traced.inFrame new, traced.prepared, makes⟩
  | function => exact ⟨traced.begun, traced.prepared, makes⟩
  | construct made found bound =>
      rcases traced.prepared with ⟨tracedClass, tracedArguments⟩
      rcases of_construct traced.begun tracedClass made found bound with
        ⟨leads, -, tracedBound⟩
      exact ⟨leads.traced, ⟨tracedBound, traced_mono tracedArguments leads⟩, makes⟩

theorem Traced.leads_program {budget : Budget} {statements : List Stmt}
    (traced : (program budget statements).Traced sources machine) :
    Leads sources machine (runProgram budget statements) fun _ _ => True := by
  induction statements generalizing machine with
  | nil => exact .pure trivial
  | cons statement rest induction =>
      rw [runProgram]
      apply (Begins.statement.traced traced).sound.statement.bind
      exact fun later _ done _ _ => induction (traced.rest done)

theorem Traced.leads (traced : work.Traced sources machine) :
    Leads sources machine work.perform fun later values =>
      ∀ value ∈ values, value.Traced sources later := by
  cases work with
  | program budget statements =>
      rw [perform]
      exact traced.leads_program.bind fun _ _ _ _ _ => .pure (List.forall_mem_nil _)
  | block budget statements =>
      rw [perform]
      apply (leads_newFrame (Nat.zero_lt_of_lt traced.begun.exists_)).bind
      intro between frame done _ exists_
      apply (leads_within exists_ ((Begins.block done).traced traced).sound.statements).bind
      intro later completion _ _ tracedValue
      exact .pure (List.forall_mem_singleton.mpr tracedValue)
  | call budget callee arguments =>
      have calls : Leads sources machine (callValue budget.runner callee arguments)
          fun later value => value.Traced sources later := by
        rcases traced.prepared with ⟨tracedCallee, tracedArguments⟩
        apply leads_callValue tracedCallee tracedArguments
        · rintro identity closure rfl
          exact (Begins.function.traced traced).sound.closure
        · rintro description method object between initializer reached rfl made found bound
          exact ((Begins.construct made found bound).traced traced).sound.closure
      rw [perform]
      exact calls.bind fun _ _ _ _ tracedValue =>
        .pure (List.forall_mem_singleton.mpr tracedValue)

theorem Undergoes.traced (undergoes : work.Undergoes machine execution)
    (traced : work.Traced sources machine) :
    execution.Traced sources work.budget.rounds ∧ machine.Proceeds execution.machine ∧
      (execution.leaves work.budget.rounds).Proceeds (work.perform.leaves machine) :=
  (Execution.governs_traced sources _).undergoes admits_progress
    (fun begins => begins.traced traced) undergoes

theorem Makes.between {description : Class} (makes : work.Makes machine description)
    (traced : work.Traced sources machine) :
    machine.identities ≤ description.identity ∧
      description.identity < (work.perform.leaves machine).identities := by
  rcases makes with ⟨execution, begins, makes⟩
  rcases (Undergoes.begins begins).traced traced with ⟨tracedExecution, starts, ends⟩
  rcases makes.between tracedExecution with ⟨younger, older⟩
  exact ⟨Nat.le_trans starts.identities younger, Nat.lt_of_lt_of_le older ends.identities⟩

theorem Makes.unique {description description' : Class}
    (makes : work.Makes machine description) (makes' : work.Makes machine description')
    (traced : work.Traced sources machine)
    (numbers : description.identity = description'.identity) :
    description = description' := by
  have governs := Execution.governs_traced sources work.budget.rounds
  rcases makes with ⟨execution, begins, makes⟩
  rcases makes' with ⟨execution', begins', makes'⟩
  have apart := governs.apart_work admits_progress (fun begins => begins.traced traced)
    begins begins'
  rcases makes.unique_of_apart apart makes' (begins.traced traced) (begins'.traced traced)
    numbers with rfl
  exact makes.unique makes' (begins.traced traced) numbers

end Work

end LoxLang
