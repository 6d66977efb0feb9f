import LoxLang.Proofs.Machine.Course
import LoxLang.Proofs.Machine.Restoration

/-! # Works of sessions

A step of a session makes its machine run a program, execute a block or call a value. What
is executed in the course of such a work begins on later machines than the work, and ends
on earlier ones. Of any two executions that do not contain one another, one has ended when
the other begins.
-/

namespace LoxLang

open LoxLang.Action

/-! ## The order of executions -/

namespace Development

variable {development : Development} {rounds : Nat} {holds : Execution → Prop}

/-- Two executions are the same, or one ends before the other begins. -/
def Apart (development : Development) (rounds : Nat) (first second : Execution) : Prop :=
  first = second ∨ development.Later (first.leaves rounds) second.machine ∨
    development.Later (second.leaves rounds) first.machine

section Apart

variable {whole first second : Execution} {depth : Nat} {machine : Machine}

theorem Apart.same : development.Apart rounds first first := .inl rfl

theorem Apart.symm (apart : development.Apart rounds first second) :
    development.Apart rounds second first := by
  rcases apart with same | before | behind
  · exact .inl same.symm
  · exact .inr (.inr before)
  · exact .inr (.inl behind)

theorem Apart.of_leaves (left : first.leaves rounds = second.machine) :
    development.Apart rounds first second :=
  .inr (.inl (left ▸ development.refl _))

theorem apart_expressions {expressions : List Expr}
    (executes : Executes rounds ⟨depth, .expressions expressions, machine⟩ first)
    (executes' : Executes rounds ⟨depth, .expressions expressions, machine⟩ second) :
    development.Apart rounds first second := by
  cases executes with
  | firstExpression =>
      cases executes' with
      | firstExpression => exact .same
      | otherExpressions done => exact .of_leaves (leaves_of_ok done)
  | otherExpressions done =>
      cases executes' with
      | firstExpression => exact .symm (.of_leaves (leaves_of_ok done))
      | otherExpressions done' =>
          cases done.symm.trans done'
          exact .same

theorem apart_statement {statement : Stmt}
    (executes : Executes rounds ⟨depth, .statement statement, machine⟩ first)
    (executes' : Executes rounds ⟨depth, .statement statement, machine⟩ second) :
    development.Apart rounds first second := by
  cases executes with
  | inner | printed | returned | initializer | loop =>
      cases executes'
      exact .same
  | block done =>
      cases executes' with
      | block done' =>
          cases done.symm.trans done'
          exact .same
  | condition =>
      cases executes' with
      | condition => exact .same
      | thenBranch done | elseBranch done =>
          exact .of_leaves (Expr.leaves_of_test done)
  | thenBranch done =>
      cases executes' with
      | condition =>
          exact .symm (.of_leaves (Expr.leaves_of_test done))
      | thenBranch done' =>
          cases done.symm.trans done'
          exact .same
      | elseBranch done' => cases done.symm.trans done'
  | elseBranch done =>
      cases executes' with
      | condition =>
          exact .symm (.of_leaves (Expr.leaves_of_test done))
      | thenBranch done' => cases done.symm.trans done'
      | elseBranch done' =>
          cases done.symm.trans done'
          exact .same

theorem apart_statements {statements : List Stmt}
    (executes : Executes rounds ⟨depth, .statements statements, machine⟩ first)
    (executes' : Executes rounds ⟨depth, .statements statements, machine⟩ second) :
    development.Apart rounds first second := by
  cases executes with
  | firstStatement =>
      cases executes' with
      | firstStatement => exact .same
      | otherStatements done => exact .of_leaves (leaves_of_ok done)
  | otherStatements done =>
      cases executes' with
      | firstStatement => exact .symm (.of_leaves (leaves_of_ok done))
      | otherStatements done' =>
          cases done.symm.trans done'
          exact .same

theorem apart_call {paren : Occurrence} {callee : Value} {arguments : List Value}
    (executes : Executes rounds ⟨depth, .call paren callee arguments, machine⟩ first)
    (executes' : Executes rounds ⟨depth, .call paren callee arguments, machine⟩ second) :
    development.Apart rounds first second := by
  cases executes with
  | function checked =>
      cases executes' with
      | function checked' =>
          cases checked.symm.trans checked'
          exact .same
  | construct checked made found bound =>
      cases executes' with
      | construct checked' made' found' bound' =>
          cases checked.symm.trans checked'
          cases made.symm.trans made'
          cases found.symm.trans found'
          cases bound.symm.trans bound'
          exact .same

theorem apart_closure {closure : Closure} {arguments : List Value}
    (executes : Executes rounds ⟨depth, .closure closure arguments, machine⟩ first)
    (executes' : Executes rounds ⟨depth, .closure closure arguments, machine⟩ second) :
    development.Apart rounds first second := by
  cases executes with
  | body entered =>
      cases executes' with
      | body entered' =>
          cases entered.symm.trans entered'
          exact .same

variable (governs : development.Governs rounds holds)

include governs

theorem Governs.apart_of_between {between : Execution} (here : holds whole)
    (executes : Executes rounds whole between)
    (left : first.leaves rounds = between.machine)
    (left' : between.leaves rounds = second.machine) :
    development.Apart rounds first second := by
  have later := governs.part_later here executes
  rw [← left, left'] at later
  exact .inr (.inl later)

theorem Governs.apart_expression {expression : Expr}
    (here : holds ⟨depth, .expression expression, machine⟩)
    (executes : Executes rounds ⟨depth, .expression expression, machine⟩ first)
    (executes' : Executes rounds ⟨depth, .expression expression, machine⟩ second) :
    development.Apart rounds first second := by
  cases executes with
  | assigned | getObject | grouped | unaryOperand =>
      cases executes'
      exact .same
  | binaryLeft =>
      cases executes' with
      | binaryLeft => exact .same
      | binaryRight done => exact .of_leaves (leaves_of_ok done)
  | binaryRight done =>
      cases executes' with
      | binaryLeft => exact .symm (.of_leaves (leaves_of_ok done))
      | binaryRight done' =>
          cases done.symm.trans done'
          exact .same
  | callee =>
      cases executes' with
      | callee => exact .same
      | arguments done => exact .of_leaves (leaves_of_ok done)
      | call done done' =>
          exact governs.apart_of_between here (.arguments done) (leaves_of_ok done)
            (leaves_of_ok done')
  | arguments done =>
      cases executes' with
      | callee => exact .symm (.of_leaves (leaves_of_ok done))
      | arguments done' =>
          cases done.symm.trans done'
          exact .same
      | call done' done'' =>
          cases done.symm.trans done'
          exact .of_leaves (leaves_of_ok done'')
  | call done done' =>
      cases executes' with
      | callee =>
          exact .symm (governs.apart_of_between here (.arguments done) (leaves_of_ok done)
            (leaves_of_ok done'))
      | arguments done'' =>
          cases done.symm.trans done''
          exact .symm (.of_leaves (leaves_of_ok done'))
      | call first second =>
          cases done.symm.trans first
          cases done'.symm.trans second
          exact .same
  | logicalLeft =>
      cases executes' with
      | logicalLeft => exact .same
      | logicalRight done => exact .of_leaves (leaves_of_ok done)
  | logicalRight done =>
      cases executes' with
      | logicalLeft => exact .symm (.of_leaves (leaves_of_ok done))
      | logicalRight done' =>
          cases done.symm.trans done'
          exact .same
  | setObject =>
      cases executes' with
      | setObject => exact .same
      | setValue done => exact .of_leaves (leaves_of_ok done)
  | setValue done =>
      cases executes' with
      | setObject => exact .symm (.of_leaves (leaves_of_ok done))
      | setValue done' =>
          cases done.symm.trans done'
          exact .same

theorem Governs.apart_loop {condition : Expr} {body : Stmt} {limit : Nat}
    (here : holds ⟨depth, .loop condition body limit, machine⟩)
    (executes : Executes rounds ⟨depth, .loop condition body limit, machine⟩ first)
    (executes' : Executes rounds ⟨depth, .loop condition body limit, machine⟩ second) :
    development.Apart rounds first second := by
  cases executes with
  | loopCondition =>
      cases executes' with
      | loopCondition => exact .same
      | loopBody done =>
          exact .of_leaves (Expr.leaves_of_test done)
      | loopRest done done' =>
          exact governs.apart_of_between here (.loopBody done)
            (Expr.leaves_of_test done) (leaves_of_ok done')
  | loopBody done =>
      cases executes' with
      | loopCondition =>
          exact .symm (.of_leaves (Expr.leaves_of_test done))
      | loopBody done' =>
          cases done.symm.trans done'
          exact .same
      | loopRest done' done'' =>
          cases done.symm.trans done'
          exact .of_leaves (leaves_of_ok done'')
  | loopRest done done' =>
      cases executes' with
      | loopCondition =>
          exact .symm (governs.apart_of_between here (.loopBody done)
            (Expr.leaves_of_test done) (leaves_of_ok done'))
      | loopBody done'' =>
          cases done.symm.trans done''
          exact .symm (.of_leaves (leaves_of_ok done'))
      | loopRest first second =>
          cases done.symm.trans first
          cases done'.symm.trans second
          exact .same

/-- The parts of an execution follow one another. -/
theorem Governs.apart (here : holds whole) (executes : Executes rounds whole first)
    (executes' : Executes rounds whole second) : development.Apart rounds first second := by
  cases whole with
  | mk depth task machine =>
      cases task with
      | expression => exact governs.apart_expression here executes executes'
      | expressions => exact apart_expressions executes executes'
      | statement => exact apart_statement executes executes'
      | statements => exact apart_statements executes executes'
      | loop => exact governs.apart_loop here executes executes'
      | call => exact apart_call executes executes'
      | closure => exact apart_closure executes executes'

end Apart

end Development

/-! ## Works -/

def Action.results (action : Action (List Value)) (machine : Machine) : List Value :=
  match action machine with
  | .ok values _ => values
  | .error _ _ => []

/-- What a session makes a machine do, within a budget. -/
inductive Work where
  | program (budget : Budget) (statements : List Stmt)
  | block (budget : Budget) (statements : List Stmt)
  | call (budget : Budget) (callee : Value) (arguments : List Value)

namespace Work

def budget : Work → Budget
  | program budget _ | block budget _ | call budget _ _ => budget

def perform : Work → Action (List Value)
  | program budget statements => do
    runProgram budget statements
    pure []
  | block budget statements => do
    let frame ← newFrame Machine.globals
    let completion ← within frame (budget.runner statements)
    pure [completion.value]
  | call budget callee arguments => do
    let value ← callValue budget.runner callee arguments
    pure [value]

/-- The executions that a work on a machine consists of. -/
inductive Begins : Work → Machine → Execution → Prop
  | statement {budget : Budget} {statement : Stmt} {rest : List Stmt} {machine : Machine} :
      Begins (.program budget (statement :: rest)) machine
        ⟨budget.depth, .statement statement, machine⟩
  | otherStatements {budget : Budget} {statement : Stmt} {rest : List Stmt}
      {completion : Completion} {execution : Execution} {machine reached : Machine}
      (done : statement.execute budget.caller budget.rounds machine =
        .ok completion reached)
      (begins : Begins (.program budget rest) reached execution) :
      Begins (.program budget (statement :: rest)) machine execution
  | block {budget : Budget} {statements : List Stmt} {frame : FrameId}
      {machine reached : Machine}
      (done : newFrame Machine.globals machine = .ok frame reached) :
      Begins (.block budget statements) machine
        ⟨budget.depth, .statements statements, { reached with current := frame }⟩
  | function {budget : Budget} {identity : Nat} {closure : Closure}
      {arguments : List Value} {machine : Machine} :
      Begins (.call budget (.function identity closure) arguments) machine
        ⟨budget.depth, .closure closure arguments, machine⟩
  | construct {budget : Budget} {description : Class} {method initializer : Closure}
      {object : Value} {arguments : List Value} {machine between reached : Machine}
      (made : newObject description machine = .ok object between)
      (found : description.initializer? = some method)
      (bound : bindThis method object between = .ok initializer reached) :
      Begins (.call budget (.classValue description) arguments) machine
        ⟨budget.depth, .closure initializer arguments, reached⟩

/-- What is executed in the course of a work. -/
inductive Undergoes (work : Work) (machine : Machine) : Execution → Prop
  | begins {execution : Execution} (begins : work.Begins machine execution) :
      Undergoes work machine execution
  | part {whole part : Execution} (undergoes : Undergoes work machine whole)
      (executes : Executes work.budget.rounds whole part) : Undergoes work machine part

theorem leaves_program (budget : Budget) (statements : List Stmt) (machine : Machine) :
    (program budget statements).perform.leaves machine =
      (runProgram budget statements).leaves machine :=
  leaves_bind_of_still fun _ _ => rfl

theorem results_program (budget : Budget) (statements : List Stmt) (machine : Machine) :
    results (program budget statements).perform machine = [] := by
  simp only [results, perform, Bind.bind, EStateM.bind]
  cases runProgram budget statements machine <;> rfl

theorem leaves_statement {budget : Budget} {statement : Stmt} {completion : Completion}
    {machine reached : Machine}
    (done : statement.execute budget.caller budget.rounds machine =
      .ok completion reached) (statements : List Stmt) :
    Execution.leaves (Work.program budget statements).budget.rounds
      ⟨budget.depth, .statement statement, machine⟩ = reached :=
  leaves_of_ok done

theorem leaves_call (budget : Budget) (callee : Value) (arguments : List Value)
    (machine : Machine) :
    (call budget callee arguments).perform.leaves machine =
      (callValue budget.runner callee arguments).leaves machine :=
  leaves_bind_of_still fun _ _ => rfl

end Work

/-! ## The course of works -/

namespace Development

structure Admits (development : Development) : Prop where
  newFrame : ∀ machine frame, development.Later machine ((newFrame frame).leaves machine)
  newObject : ∀ machine description,
    development.Later machine ((newObject description).leaves machine)
  bindThis : ∀ machine method object,
    development.Later machine ((bindThis method object).leaves machine)

section Works

theorem Governs.rest {development : Development} {holds : Execution → Prop}
    {budget : Budget} {statements : List Stmt}
    (governs : development.Governs (Work.program budget statements).budget.rounds holds)
    (rest : List Stmt) :
    development.Governs (Work.program budget rest).budget.rounds holds :=
  governs

variable {development : Development} {holds : Execution → Prop} {work : Work}
  {machine : Machine} {execution first second : Execution}
  (admits : development.Admits) (governs : development.Governs work.budget.rounds holds)
  (every : ∀ {execution}, work.Begins machine execution → holds execution)

omit admits in
include governs every in
theorem Governs.later_program {budget : Budget} {statements : List Stmt}
    (isProgram : work = .program budget statements) :
    development.Later machine ((runProgram budget statements).leaves machine) := by
  subst isProgram
  induction statements generalizing machine with
  | nil => exact development.refl machine
  | cons statement rest induction =>
      rw [runProgram]
      apply bind (governs.later (every .statement))
      intro completion between done _
      exact induction (governs.rest rest) fun begins => every (.otherStatements done begins)

omit admits in
include governs every in
theorem Governs.ends_work (begins : work.Begins machine execution) :
    development.Later (execution.leaves work.budget.rounds)
      (work.perform.leaves machine) := by
  induction begins with
  | @statement _ _ rest =>
      rw [Work.leaves_program, runProgram]
      apply bind_rest
      intro completion between done
      exact (governs.rest rest).later_program
        (fun begins => every (.otherStatements done begins)) rfl
  | otherStatements done begins induction =>
      rw [Work.leaves_program, runProgram, leaves_bind_of_ok done, ← Work.leaves_program]
      exact induction (governs.rest _) fun begins => every (.otherStatements done begins)
  | block done =>
      rw [Work.perform, leaves_bind_of_ok done, leaves_bind_of_still fun _ _ => rfl,
        leaves_within]
      exact development.elsewhere _ _
  | function =>
      rw [Work.leaves_call]
      exact development.refl _
  | construct made found bound =>
      rw [Work.leaves_call, callValue, construct, leaves_bind_of_ok made, found,
        leaves_bind_of_ok bound, leaves_bind_of_still fun _ _ => rfl]
      exact development.refl _

include admits governs every

theorem Governs.starts_work (begins : work.Begins machine execution) :
    development.Later machine execution.machine := by
  induction begins with
  | statement | function => exact development.refl _
  | otherStatements done begins induction =>
      have first := governs.later (every .statement)
      rw [Work.leaves_statement done] at first
      exact development.trans first
        (induction (governs.rest _) fun begins => every (.otherStatements done begins))
  | @block _ _ _ machine _ done =>
      have pushed := admits.newFrame machine Machine.globals
      rw [leaves_of_ok done] at pushed
      exact development.trans pushed (development.elsewhere _ _)
  | @construct _ description method _ object _ machine between _ made _ bound =>
      have first := admits.newObject machine description
      rw [leaves_of_ok made] at first
      have second := admits.bindThis between method object
      rw [leaves_of_ok bound] at second
      exact development.trans first second

theorem Governs.apart_work (begins : work.Begins machine first)
    (begins' : work.Begins machine second) :
    development.Apart work.budget.rounds first second := by
  induction begins with
  | statement =>
      cases begins' with
      | statement => exact .same
      | otherStatements done begins' =>
          have behind := (governs.rest _).starts_work admits
            (fun begins => every (.otherStatements done begins)) begins'
          rw [← Work.leaves_statement done []] at behind
          exact .inr (.inl behind)
  | otherStatements done begins induction =>
      cases begins' with
      | statement =>
          have behind := (governs.rest _).starts_work admits
            (fun begins => every (.otherStatements done begins)) begins
          rw [← Work.leaves_statement done []] at behind
          exact .inr (.inr behind)
      | otherStatements done' begins' =>
          cases done.symm.trans done'
          exact induction (governs.rest _)
            (fun begins => every (.otherStatements done begins)) begins'
  | block done =>
      cases begins' with
      | block done' =>
          cases done.symm.trans done'
          exact .same
  | function =>
      cases begins'
      exact .same
  | construct made found bound =>
      cases begins' with
      | construct made' found' bound' =>
          cases made.symm.trans made'
          cases found.symm.trans found'
          cases bound.symm.trans bound'
          exact .same

theorem Governs.undergoes (undergoes : work.Undergoes machine execution) :
    holds execution ∧ development.Later machine execution.machine ∧
      development.Later (execution.leaves work.budget.rounds)
        (work.perform.leaves machine) := by
  induction undergoes with
  | begins begins =>
      exact ⟨every begins, governs.starts_work admits every begins,
        governs.ends_work every begins⟩
  | part _ executes induction =>
      rcases induction with ⟨here, starts, ends⟩
      exact ⟨governs.holds_part here executes,
        development.trans starts (governs.starts here executes),
        development.trans (governs.ends here executes) ends⟩

end Works

end Development

/-! ## Steps -/

namespace Session

variable (session : Session)

def opened : Step → Session
  | .run _ source =>
    let program := Program.ofSource session.nextPlace source
    if program.complaints.isEmpty then session.accept program else session.reject program
  | .runUnchecked _ source | .runBlock _ source =>
    session.accept (.ofSource session.nextPlace source)
  | .defineNative _ _ _ | .callGlobal _ _ _ | .reset => session

/-- The work that a step makes the machine do. A text with complaints and a name without a
value make none. -/
def work? : Step → Option Work
  | .run budget source =>
    let program := Program.ofSource session.nextPlace source
    if program.complaints.isEmpty then some (.program budget program.statements) else none
  | .runUnchecked budget source =>
    some (.program budget (Program.ofSource session.nextPlace source).statements)
  | .runBlock budget source =>
    some (.block budget
      (statementsOfBlock (Program.ofSource session.nextPlace source).statements))
  | .callGlobal budget name arguments =>
    (session.machine.frames.here? Machine.globals name).map fun callee =>
      .call budget callee arguments
  | .defineNative _ _ _ | .reset => none

def program? : Step → Option Program
  | .run _ source | .runUnchecked _ source | .runBlock _ source =>
    some (.ofSource session.nextPlace source)
  | .defineNative _ _ _ | .callGlobal _ _ _ | .reset => none

/-- The step reads the program and makes known to the machine what has been found about
it. -/
def Accepts (step : Step) (program : Program) : Prop :=
  session.program? step = some program ∧ (session.work? step).isSome

def delivers : Step → List Value
  | .runBlock budget source =>
    match (session.runBlock budget source).2.1 with
    | .ok completion => [completion.value]
    | .error _ => []
  | .callGlobal budget name arguments =>
    match (session.callGlobal budget name arguments).2.1 with
    | .ok (value, _) => [value]
    | .error _ => []
  | .run _ _ | .runUnchecked _ _ | .defineNative _ _ _ | .reset => []

variable {session} {step : Step} {work : Work}

theorem machine_perform (action : Action α) :
    (session.perform action).1.machine =
      { action.leaves session.machine with printed := #[] } := by
  rw [perform, leaves]
  cases action session.machine <;> rfl

theorem valueIn_of_here? {machine : Machine} {frame : FrameId} {name : String}
    {value : Value} (found : machine.frames.here? frame name = some value) :
    valueIn frame name machine = .ok value machine := by
  rw [valueIn, found]

theorem machine_run_of_accepted {budget : Budget} {source : String}
    (accepted : (Program.ofSource session.nextPlace source).complaints.isEmpty) :
    (session.run budget source).1.machine =
      { (runProgram budget (Program.ofSource session.nextPlace source).statements).leaves
          (session.accept (.ofSource session.nextPlace source)).machine with
        printed := #[] } := by
  simp only [run, accepted, if_true, perform, leaves]
  cases runProgram budget _ _ <;> rfl

theorem machine_take (works : session.work? step = some work) :
    (session.take step).machine =
      { work.perform.leaves (session.opened step).machine with printed := #[] } := by
  cases step with
  | run budget source =>
      simp only [work?] at works
      split at works
      case isTrue accepted =>
          cases works
          rw [Work.leaves_program, take, machine_run_of_accepted accepted, opened,
            if_pos accepted]
      case isFalse => cases works
  | runUnchecked budget source =>
      cases works
      rw [Work.leaves_program]
      exact machine_perform _
  | runBlock budget source =>
      cases works
      refine (machine_perform _).trans ?_
      rw [Work.perform, leaves_bind_of_ok (show newFrame _ _ = .ok _ _ from rfl),
        leaves_bind_of_ok (show newFrame _ _ = .ok _ _ from rfl),
        leaves_bind_of_still fun _ _ => rfl]
      rfl
  | callGlobal budget name arguments =>
      rcases Option.map_eq_some_iff.mp works with ⟨callee, found, rfl⟩
      refine (machine_perform _).trans ?_
      rw [leaves_bind_of_ok (valueIn_of_here? found), leaves_bind_of_still fun _ _ => rfl,
        Work.leaves_call]
      rfl
  | defineNative | reset => cases works

/-- Steps without work do nothing but to read a text or to define a built-in function. -/
theorem machine_take_of_idle (idle : session.work? step = none)
    (noNative : ∀ name arity answer, step ≠ .defineNative name arity answer) :
    ∃ printed, (session.take step).machine =
      { (session.opened step).machine with printed } := by
  cases step with
  | run budget source =>
      simp only [work?] at idle
      split at idle
      case isTrue => cases idle
      case isFalse rejected =>
          refine ⟨session.machine.printed, ?_⟩
          simp only [take, run, opened, if_neg rejected]
          rfl
  | callGlobal budget name arguments =>
      have missing : valueIn Machine.globals name session.machine =
          .error (.defect (.nameMissing name)) session.machine := by
        rw [valueIn, Option.map_eq_none_iff.mp idle]
      refine ⟨#[], (machine_perform _).trans ?_⟩
      rw [leaves_bind_of_error missing]
      rfl
  | defineNative name arity answer => exact absurd rfl (noNative name arity answer)
  | runUnchecked | runBlock => cases idle
  | reset => exact ⟨_, rfl⟩

theorem delivers_eq (works : session.work? step = some work) :
    session.delivers step = results work.perform (session.opened step).machine := by
  cases step with
  | run budget source =>
      simp only [work?] at works
      split at works
      case isTrue =>
          cases works
          exact (Work.results_program _ _ _).symm
      case isFalse => cases works
  | runUnchecked budget source =>
      cases works
      exact (Work.results_program _ _ _).symm
  | runBlock budget source =>
      cases works
      simp only [delivers, runBlock, perform, results, Work.perform, opened,
        Bind.bind, EStateM.bind]
      generalize newFrame _ _ = outcome
      cases outcome with
      | error => rfl
      | ok frame between =>
          dsimp only
          generalize within _ _ _ = outcome'
          cases outcome' <;> rfl
  | callGlobal budget name arguments =>
      rcases Option.map_eq_some_iff.mp works with ⟨callee, found, rfl⟩
      simp only [delivers, callGlobal, perform, results, Work.perform, opened,
        Bind.bind, EStateM.bind, valueIn_of_here? found]
      generalize callValue _ _ _ _ = outcome
      cases outcome <;> rfl
  | defineNative | reset => cases works

theorem delivers_of_idle (idle : session.work? step = none) : session.delivers step = [] := by
  cases step with
  | callGlobal budget name arguments =>
      simp only [delivers, callGlobal, perform, Bind.bind, EStateM.bind, valueIn,
        Option.map_eq_none_iff.mp idle]
  | runBlock => cases idle
  | run | runUnchecked | defineNative | reset => rfl

end Session

end LoxLang
