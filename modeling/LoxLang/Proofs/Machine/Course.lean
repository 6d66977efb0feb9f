import LoxLang.Proofs.Names.Executions

/-! # The course of executions

An execution consists of the executions of its parts and of the changes that it makes
itself before, between and behind them. What is true of all these changes is true of the
whole course: if each of them leads to a later machine, in whatever sense of being later,
then an execution leaves a later machine than it began on, and its parts lie in between.
-/

namespace LoxLang

namespace Action

/-! ## Sequences of actions -/

section Sequences

variable {action first : Action β} {next : β → Action α} {machine between : Machine}
  {result : β}

theorem leaves_of_ok (done : action machine = .ok result between) :
    action.leaves machine = between := by
  rw [leaves, done]

theorem leaves_bind_of_ok (done : first machine = .ok result between) :
    (first >>= next).leaves machine = (next result).leaves between := by
  change leaves (EStateM.bind first next) machine = _
  simp only [leaves, EStateM.bind, done]

theorem leaves_bind_of_error {stop : Stop} (stopped : first machine = .error stop between) :
    (first >>= next).leaves machine = between := by
  change leaves (EStateM.bind first next) machine = _
  simp only [leaves, EStateM.bind, stopped]

theorem ok_of_bind_ok {last : α} {reached : Machine}
    (done : (first >>= next) machine = .ok last reached) :
    ∃ result between, first machine = .ok result between ∧
      next result between = .ok last reached := by
  change EStateM.bind first next machine = _ at done
  simp only [EStateM.bind] at done
  cases outcome : first machine with
  | ok result between =>
      rw [outcome] at done
      exact ⟨result, between, rfl, done⟩
  | error stop between =>
      rw [outcome] at done
      cases done

theorem leaves_bind_of_still
    (still : ∀ result between, (next result).leaves between = between) :
    (first >>= next).leaves machine = first.leaves machine := by
  cases outcome : first machine with
  | ok result between => rw [leaves_bind_of_ok outcome, still, leaves_of_ok outcome]
  | error stop between => rw [leaves_bind_of_error outcome, leaves, outcome]

theorem leaves_ofOperator (token : Occurrence) (result : Except OperandFault Value)
    (machine : Machine) : leaves (ofOperator token result) machine = machine := by
  cases result <;> rfl

theorem leaves_valueIn (frame : FrameId) (name : String) (machine : Machine) :
    (valueIn frame name).leaves machine = machine := by
  simp only [leaves, valueIn]
  cases machine.frames.here? frame name <;> rfl

theorem leaves_checkCall (paren : Occurrence) (callee : Value) (arguments : List Value)
    (machine : Machine) : leaves (checkCall paren callee arguments) machine = machine := by
  rw [checkCall]
  split
  case h_1 => rfl
  case h_2 => split <;> rfl

theorem leaves_delivery (closure : Closure) (completion : Completion)
    (machine : Machine) :
    leaves (if closure.isInitializer then valueIn closure.frame "this"
      else pure completion.value) machine = machine := by
  split
  · exact leaves_valueIn _ _ _
  · rfl

theorem leaves_within (frame : FrameId) (action : Action α) (machine : Machine) :
    (within frame action).leaves machine =
      { action.leaves { machine with current := frame } with
        current := machine.current } := by
  simp only [leaves, within]
  cases action { machine with current := frame } <;> rfl

end Sequences

end Action

theorem Expr.leaves_test (call : Caller) (condition : Expr) (machine : Machine) :
    (condition.test call).leaves machine = (condition.evaluate call).leaves machine :=
  Action.leaves_bind_of_still fun _ _ => rfl

theorem Expr.leaves_of_test {call : Caller} {condition : Expr} {holds : Bool}
    {machine between : Machine} (done : condition.test call machine = .ok holds between) :
    (condition.evaluate call).leaves machine = between := by
  rw [← leaves_test, Action.leaves_of_ok done]

/-! ## Parts and changes -/

namespace Execution

def leaves (rounds : Nat) : Execution → Machine
  | ⟨depth, .expression expression, machine⟩ =>
    (expression.evaluate (callWithin rounds depth)).leaves machine
  | ⟨depth, .expressions expressions, machine⟩ =>
    (Expr.evaluateAll (callWithin rounds depth) expressions).leaves machine
  | ⟨depth, .statement statement, machine⟩ =>
    (statement.execute (callWithin rounds depth) rounds).leaves machine
  | ⟨depth, .statements statements, machine⟩ =>
    (Stmt.executeAll (callWithin rounds depth) rounds statements).leaves machine
  | ⟨depth, .loop condition body limit, machine⟩ =>
    Action.leaves (Action.repeatWhile (condition.test (callWithin rounds depth))
      (body.execute (callWithin rounds depth) rounds) limit) machine
  | ⟨depth, .call paren callee arguments, machine⟩ =>
    (callWithin rounds depth paren callee arguments).leaves machine
  | ⟨depth, .closure closure arguments, machine⟩ =>
    (Action.callClosure (Stmt.executeAll (callWithin rounds depth) rounds) closure
      arguments).leaves machine

end Execution

/-- What an execution changes itself: the machine before such a change, and after it. -/
inductive Changes (rounds : Nat) : Execution → Machine → Machine → Prop
  | assigned {depth : Nat} {value : Expr} {name : Occurrence} {result : Value}
      {machine between : Machine}
      (done : value.evaluate (callWithin rounds depth) machine = .ok result between) :
      Changes rounds ⟨depth, .expression (.assign name value), machine⟩ between
        ((Action.assign name result).leaves between)
  | property {depth : Nat} {object : Expr} {name : Occurrence} {result : Value}
      {machine between : Machine}
      (done : object.evaluate (callWithin rounds depth) machine = .ok result between) :
      Changes rounds ⟨depth, .expression (.get object name), machine⟩ between
        ((Action.property result name).leaves between)
  | fieldSet {depth identity : Nat} {object value : Expr} {name : Occurrence}
      {description : Class} {result : Value} {machine middle between : Machine}
      (done : object.evaluate (callWithin rounds depth) machine =
        .ok (.object identity description) middle)
      (done' : value.evaluate (callWithin rounds depth) middle = .ok result between) :
      Changes rounds ⟨depth, .expression (.set object name value), machine⟩ between
        ((Action.setField identity name.lexeme result).leaves between)
  | superMethod {depth : Nat} {keyword name : Occurrence} {machine : Machine} :
      Changes rounds ⟨depth, .expression (.super keyword name), machine⟩ machine
        ((Action.superMethod keyword name).leaves machine)
  | block {depth : Nat} {statements : List Stmt} {machine : Machine} :
      Changes rounds ⟨depth, .statement (.block statements), machine⟩ machine
        ((Action.newFrame machine.current).leaves machine)
  | classDeclared {depth : Nat} {name : Occurrence} {clause : Option Occurrence}
      {methods : List Routine} {machine : Machine} :
      Changes rounds ⟨depth, .statement (.classDecl name clause methods), machine⟩ machine
        ((Action.declareClass name clause methods).leaves machine)
  | functionDeclared {depth : Nat} {routine : Routine} {machine : Machine} :
      Changes rounds ⟨depth, .statement (.function routine), machine⟩ machine
        ((Action.declareFunction routine).leaves machine)
  | printed {depth : Nat} {inner : Expr} {result : Value} {machine between : Machine}
      (done : inner.evaluate (callWithin rounds depth) machine = .ok result between) :
      Changes rounds ⟨depth, .statement (.print inner), machine⟩ between
        ((Action.print result.text).leaves between)
  | variableDefined {depth : Nat} {name : Occurrence} {initializer : Option Expr}
      {result : Value} {machine between : Machine}
      (done : Expr.evaluateOption (callWithin rounds depth) initializer machine =
        .ok result between) :
      Changes rounds ⟨depth, .statement (.var name initializer), machine⟩ between
        ((Action.define name.lexeme result).leaves between)
  | answered {depth : Nat} {paren : Occurrence} {builtIn : Native}
      {arguments : List Value} {machine : Machine} :
      Changes rounds ⟨depth + 1, .call paren (.native builtIn) arguments, machine⟩ machine
        ((Action.answer builtIn.answer arguments).leaves machine)
  | objectMade {depth : Nat} {paren : Occurrence} {description : Class}
      {arguments : List Value} {machine : Machine} :
      Changes rounds ⟨depth + 1, .call paren (.classValue description) arguments, machine⟩
        machine ((Action.newObject description).leaves machine)
  | initializerBound {depth : Nat} {paren : Occurrence} {description : Class}
      {method : Closure} {object : Value} {arguments : List Value}
      {machine between : Machine} (found : description.initializer? = some method)
      (made : Action.newObject description machine = .ok object between) :
      Changes rounds ⟨depth + 1, .call paren (.classValue description) arguments, machine⟩
        between ((Action.bindThis method object).leaves between)
  | parametersBound {depth : Nat} {closure : Closure} {arguments : List Value}
      {machine : Machine} :
      Changes rounds ⟨depth, .closure closure arguments, machine⟩ machine
        ((Names.parameterFrame closure arguments).leaves machine)

/-! ## Induction over parts -/

namespace Execution

noncomputable def extent : Task → Nat
  | .expression expression => sizeOf expression
  | .expressions expressions => sizeOf expressions
  | .statement statement => sizeOf statement
  | .statements statements => sizeOf statements
  | .loop condition body _ => sizeOf condition + sizeOf body
  | .call _ _ _ => 0
  | .closure closure _ => sizeOf closure.routine.body + 1

def remaining : Task → Nat
  | .loop _ _ limit => limit
  | _ => 0

noncomputable def rank (execution : Execution) : Nat × Nat × Nat :=
  ⟨execution.depth, extent execution.task, remaining execution.task⟩

end Execution

/-- A part has fewer calls left, is about less of the program, or is a loop with fewer
rounds left. -/
theorem Executes.rank_lt {rounds : Nat} {whole part : Execution}
    (executes : Executes rounds whole part) :
    Prod.Lex (· < ·) (Prod.Lex (· < ·) (· < ·)) part.rank whole.rank := by
  have smaller : ∀ {task task' : Task} {depth : Nat} {machine machine' : Machine},
      Execution.extent task' < Execution.extent task →
      Prod.Lex (· < ·) (Prod.Lex (· < ·) (· < ·))
        (Execution.rank ⟨depth, task', machine'⟩) (Execution.rank ⟨depth, task, machine⟩) :=
    fun less => .right _ (.left _ _ less)
  cases executes with
  | function | construct => exact .left _ _ (Nat.lt_succ_self _)
  | loopRest => exact .right _ (.right _ (Nat.lt_succ_self _))
  | @loopCondition _ _ condition body | @loopBody _ _ condition body =>
      have condition_pos : 0 < sizeOf condition := by cases condition <;> simp +arith
      have body_pos : 0 < sizeOf body := by cases body <;> simp +arith
      apply smaller
      simp only [Execution.extent]
      omega
  | body => exact smaller (Nat.lt_succ_self _)
  | _ =>
      apply smaller
      simp [Execution.extent]
      try omega

/-- What is true of an execution whenever it is true of all its parts is true of every
execution. -/
theorem Execution.induction {rounds : Nat} {motive : Execution → Prop}
    (step : ∀ whole, (∀ part, Executes rounds whole part → motive part) → motive whole)
    (execution : Execution) : motive execution := by
  have wellFounded : WellFounded
      (Prod.Lex (· < ·) (Prod.Lex (· < ·) (· < ·)) : Nat × Nat × Nat → _ → Prop) :=
    (Prod.lex Nat.lt_wfRel (Prod.lex Nat.lt_wfRel Nat.lt_wfRel)).wf
  have every := (InvImage.wf Execution.rank wellFounded).induction (C := motive) execution
  exact every fun whole parts => step whole fun part executes => parts part executes.rank_lt

/-! ## Later machines -/

/-- A sense in which one machine is later than another. Being in another frame does not
count. -/
structure Development where
  Later : Machine → Machine → Prop
  refl : ∀ machine, Later machine machine
  trans : ∀ {first second third}, Later first second → Later second third →
    Later first third
  elsewhere : ∀ (machine : Machine) (frame : FrameId),
    Later machine { machine with current := frame }

namespace Development

variable {development : Development} {action first : Action β} {next : β → Action α}
  {machine between : Machine} {result : β}

theorem of_still (still : action.leaves machine = machine) :
    development.Later machine (action.leaves machine) := by
  rw [still]
  exact development.refl machine

theorem bind_rest
    (rest : ∀ result between, first machine = .ok result between →
      development.Later between ((next result).leaves between)) :
    development.Later (first.leaves machine) ((first >>= next).leaves machine) := by
  cases outcome : first machine with
  | ok result between =>
      rw [Action.leaves_bind_of_ok outcome, Action.leaves_of_ok outcome]
      exact rest result between outcome
  | error stop between =>
      rw [Action.leaves_bind_of_error outcome, Action.leaves, outcome]
      exact development.refl between

theorem bind (start : development.Later machine (first.leaves machine))
    (rest : ∀ result between, first machine = .ok result between →
      development.Later machine between →
        development.Later between ((next result).leaves between)) :
    development.Later machine ((first >>= next).leaves machine) := by
  apply development.trans start
  apply bind_rest
  intro result between done
  exact rest result between done (Action.leaves_of_ok done ▸ start)

theorem bind_still (still : first.leaves machine = machine)
    (rest : ∀ result, first machine = .ok result machine →
      development.Later machine ((next result).leaves machine)) :
    development.Later machine ((first >>= next).leaves machine) := by
  apply bind (of_still still)
  intro result between done _
  obtain rfl : between = machine := (Action.leaves_of_ok done).symm.trans still
  exact rest result done

theorem within {frame : FrameId} {action : Action α}
    (inside : development.Later { machine with current := frame }
      (action.leaves { machine with current := frame })) :
    development.Later machine ((Action.within frame action).leaves machine) := by
  rw [Action.leaves_within]
  exact development.trans (development.elsewhere machine frame)
    (development.trans inside (development.elsewhere _ _))

/-- A property of executions that is handed on to their parts, and that makes every change
lead to a later machine. -/
structure Governs (development : Development) (rounds : Nat) (holds : Execution → Prop) :
    Prop where
  parts : ∀ {whole part}, holds whole → Executes rounds whole part →
    development.Later whole.machine part.machine → holds part
  changes : ∀ {execution before after}, holds execution →
    Changes rounds execution before after →
      development.Later execution.machine before → development.Later before after

/-! ## Whole courses -/

section Course

open LoxLang.Action

variable {rounds depth : Nat} {holds : Execution → Prop}

def PartsLater (development : Development) (rounds : Nat) (whole : Execution) : Prop :=
  ∀ {part}, Executes rounds whole part → development.Later whole.machine part.machine →
    development.Later part.machine (part.leaves rounds)

theorem later_expressions {expressions : List Expr}
    (part : development.PartsLater rounds ⟨depth, .expressions expressions, machine⟩) :
    development.Later machine
      ((Expr.evaluateAll (callWithin rounds depth) expressions).leaves machine) := by
  cases expressions with
  | nil => exact development.refl machine
  | cons expression rest =>
      rw [Expr.evaluateAll]
      apply bind (part .firstExpression (development.refl machine))
      intro value between done reached
      rw [leaves_bind_of_still fun _ _ => rfl]
      exact part (.otherExpressions done) reached

theorem later_inside {inside : Action α} {frame : FrameId}
    (reached : development.Later machine between)
    (later : development.Later machine { between with current := frame } →
      development.Later { between with current := frame }
        (inside.leaves { between with current := frame })) :
    development.Later between ((Action.within frame inside).leaves between) :=
  within (later (development.trans reached (development.elsewhere between frame)))

theorem later_statements {statements : List Stmt}
    (part : development.PartsLater rounds ⟨depth, .statements statements, machine⟩) :
    development.Later machine
      ((Stmt.executeAll (callWithin rounds depth) rounds statements).leaves machine) := by
  cases statements with
  | nil => exact development.refl machine
  | cons statement rest =>
      rw [Stmt.executeAll]
      apply bind (part .firstStatement (development.refl machine))
      intro completion between done reached
      cases completion with
      | finished => exact part (.otherStatements done) reached
      | returned value => exact development.refl between

theorem later_loop {condition : Expr} {body : Stmt} {limit : Nat}
    (part : development.PartsLater rounds ⟨depth, .loop condition body limit, machine⟩) :
    development.Later machine
      (leaves (repeatWhile (condition.test (callWithin rounds depth))
        (body.execute (callWithin rounds depth) rounds) limit) machine) := by
  cases limit with
  | zero => exact development.refl machine
  | succ limit =>
      rw [repeatWhile]
      apply bind (Expr.leaves_test _ _ _ ▸ part .loopCondition (development.refl machine))
      intro holds between done reached
      cases holds with
      | false => exact development.refl between
      | true =>
          apply bind (part (.loopBody done) reached)
          intro completion between' done' reached'
          cases completion with
          | finished => exact part (.loopRest done done') (development.trans reached reached')
          | returned value => exact development.refl between'

theorem ends_call {paren : Occurrence} {callee : Value} {arguments : List Value}
    {part : Execution}
    (executes : Executes rounds ⟨depth, .call paren callee arguments, machine⟩ part) :
    development.Later (part.leaves rounds)
      (Execution.leaves rounds ⟨depth, .call paren callee arguments, machine⟩) := by
  cases executes with
  | function checked =>
      simp only [Execution.leaves, callWithin]
      rw [leaves_bind_of_ok checked]
      exact development.refl _
  | construct checked made found bound =>
      simp only [Execution.leaves, callWithin, callValue, Action.construct]
      rw [leaves_bind_of_ok checked, leaves_bind_of_ok made, found, leaves_bind_of_ok bound,
        leaves_bind_of_still fun _ _ => rfl]
      exact development.refl _

theorem ends_closure {closure : Closure} {arguments : List Value} {part : Execution}
    (executes : Executes rounds ⟨depth, .closure closure arguments, machine⟩ part) :
    development.Later (part.leaves rounds)
      (Execution.leaves rounds ⟨depth, .closure closure arguments, machine⟩) := by
  cases executes with
  | body entered =>
      simp only [Execution.leaves]
      rw [Names.callClosure_eq, leaves_bind_of_ok entered,
        leaves_bind_of_still (leaves_delivery _), leaves_within]
      exact development.elsewhere _ _

variable (governs : development.Governs rounds holds)

include governs

theorem Governs.later_expression {expression : Expr}
    (here : holds ⟨depth, .expression expression, machine⟩)
    (part : development.PartsLater rounds ⟨depth, .expression expression, machine⟩) :
    development.Later machine
      ((expression.evaluate (callWithin rounds depth)).leaves machine) := by
  have start := development.refl machine
  cases expression with
  | assign name value =>
      rw [Expr.evaluate]
      apply bind (part .assigned start)
      intro result between done reached
      rw [leaves_bind_of_still fun _ _ => rfl]
      exact governs.changes here (.assigned done) reached
  | binary left operator word right =>
      rw [Expr.evaluate]
      apply bind (part .binaryLeft start)
      intro value between done reached
      rw [leaves_bind_of_still fun _ _ => leaves_ofOperator _ _ _]
      exact part (.binaryRight done) reached
  | call callee paren arguments =>
      rw [Expr.evaluate]
      apply bind (part .callee start)
      intro value between done reached
      apply bind (part (.arguments done) reached)
      intro values between' done' reached'
      exact part (.call done done') (development.trans reached reached')
  | get object name =>
      rw [Expr.evaluate]
      apply bind (part .getObject start)
      intro value between done reached
      exact governs.changes here (.property done) reached
  | grouping inner =>
      rw [Expr.evaluate]
      exact part .grouped start
  | literal value => exact start
  | logical left operator word right =>
      rw [Expr.evaluate]
      apply bind (part .logicalLeft start)
      intro value between done reached
      cases decided : operator.decidedBy value with
      | true => exact development.refl between
      | false => exact part (.logicalRight done decided) reached
  | set object name value =>
      rw [Expr.evaluate]
      apply bind (part .setObject start)
      intro found between done reached
      cases found with
      | object identity description =>
          apply bind (part (.setValue done) reached)
          intro result between' done' reached'
          rw [leaves_bind_of_still fun _ _ => rfl]
          exact governs.changes here (.fieldSet done done')
            (development.trans reached reached')
      | nil | bool | number | string | function | native | classValue =>
          exact development.refl between
  | super keyword name =>
      rw [Expr.evaluate]
      exact governs.changes here .superMethod start
  | this keyword | «variable» name =>
      rw [Expr.evaluate]
      exact of_still (leaves_read _ _)
  | unary operator word right =>
      rw [Expr.evaluate]
      rw [leaves_bind_of_still fun _ _ => leaves_ofOperator _ _ _]
      exact part .unaryOperand start

theorem Governs.later_statement {statement : Stmt}
    (here : holds ⟨depth, .statement statement, machine⟩)
    (part : development.PartsLater rounds ⟨depth, .statement statement, machine⟩) :
    development.Later machine
      ((statement.execute (callWithin rounds depth) rounds).leaves machine) := by
  have start := development.refl machine
  cases statement with
  | block statements =>
      rw [Stmt.execute]
      apply bind_still rfl
      intro frame isCurrent
      cases isCurrent
      apply bind (governs.changes here .block start)
      intro frame between done reached
      exact later_inside reached (part (.block done))
  | classDecl name clause methods =>
      rw [Stmt.execute, leaves_bind_of_still fun _ _ => rfl]
      exact governs.changes here .classDeclared start
  | expression inner =>
      rw [Stmt.execute, leaves_bind_of_still fun _ _ => rfl]
      exact part .inner start
  | function routine =>
      rw [Stmt.execute, leaves_bind_of_still fun _ _ => rfl]
      exact governs.changes here .functionDeclared start
  | ifThen condition thenBranch elseBranch =>
      have tested : development.Later machine
          ((condition.test (callWithin rounds depth)).leaves machine) := by
        rw [Expr.leaves_test]
        exact part .condition start
      cases elseBranch with
      | none =>
          rw [Stmt.execute]
          apply bind tested
          intro holds between done reached
          cases holds with
          | true => exact part (.thenBranch done) reached
          | false => exact development.refl between
      | some elseBranch =>
          rw [Stmt.execute]
          apply bind tested
          intro holds between done reached
          cases holds with
          | true => exact part (.thenBranch done) reached
          | false => exact part (.elseBranch done) reached
  | print inner =>
      rw [Stmt.execute]
      apply bind (part .printed start)
      intro value between done reached
      rw [leaves_bind_of_still fun _ _ => rfl]
      exact governs.changes here (.printed done) reached
  | returns keyword value =>
      rw [Stmt.execute, leaves_bind_of_still fun _ _ => rfl]
      cases value with
      | none => exact start
      | some value => exact part .returned start
  | var name initializer =>
      have initialized : development.Later machine
          ((Expr.evaluateOption (callWithin rounds depth) initializer).leaves machine) := by
        cases initializer with
        | none => exact start
        | some value => exact part .initializer start
      rw [Stmt.execute]
      apply bind initialized
      intro value between done reached
      rw [leaves_bind_of_still fun _ _ => rfl]
      exact governs.changes here (.variableDefined done) reached
  | whileLoop condition body =>
      rw [Stmt.execute]
      exact part .loop start

theorem Governs.later_call {paren : Occurrence} {callee : Value} {arguments : List Value}
    (here : holds ⟨depth, .call paren callee arguments, machine⟩)
    (part : development.PartsLater rounds ⟨depth, .call paren callee arguments, machine⟩) :
    development.Later machine
      ((callWithin rounds depth paren callee arguments).leaves machine) := by
  have start := development.refl machine
  cases depth with
  | zero =>
      rw [callWithin]
      apply bind_still (leaves_checkCall _ _ _ _)
      exact fun _ _ => start
  | succ depth =>
      rw [callWithin]
      apply bind_still (leaves_checkCall _ _ _ _)
      intro _ checked
      cases callee with
      | native builtIn => exact governs.changes here .answered start
      | function identity closure => exact part (.function checked) start
      | classValue description =>
          apply bind (governs.changes here .objectMade start)
          intro object between made reached
          cases found : description.initializer? with
          | none => exact development.refl between
          | some method =>
              apply bind (governs.changes here (.initializerBound found made) reached)
              intro initializer between' bound reached'
              rw [leaves_bind_of_still fun _ _ => rfl]
              exact part (.construct checked made found bound)
                (development.trans reached reached')
      | nil | bool | number | string | object => exact start

theorem Governs.later_closure {closure : Closure} {arguments : List Value}
    (here : holds ⟨depth, .closure closure arguments, machine⟩)
    (part : development.PartsLater rounds ⟨depth, .closure closure arguments, machine⟩) :
    development.Later machine
      ((callClosure (Stmt.executeAll (callWithin rounds depth) rounds) closure
        arguments).leaves machine) := by
  rw [Names.callClosure_eq]
  apply bind (governs.changes here .parametersBound (development.refl machine))
  intro frame between entered reached
  rw [leaves_bind_of_still (leaves_delivery _)]
  exact later_inside reached (part (.body entered))

theorem Governs.later {execution : Execution} :
    holds execution → development.Later execution.machine (execution.leaves rounds) := by
  apply @Execution.induction rounds _ _ execution
  intro whole parts here
  have part : development.PartsLater rounds whole :=
    fun executes reached => parts _ executes (governs.parts here executes reached)
  cases whole with
  | mk depth task machine =>
      cases task with
      | expression => exact governs.later_expression here part
      | expressions => exact later_expressions part
      | statement => exact governs.later_statement here part
      | statements => exact later_statements part
      | loop => exact later_loop part
      | call => exact governs.later_call here part
      | closure => exact governs.later_closure here part

theorem Governs.after {whole first : Execution} {reached : Machine} (here : holds whole)
    (executes : Executes rounds whole first)
    (start : development.Later whole.machine first.machine)
    (left : first.leaves rounds = reached) : development.Later whole.machine reached := by
  subst left
  exact development.trans start (governs.later (governs.parts here executes start))

theorem Governs.starts {whole part : Execution} (here : holds whole)
    (executes : Executes rounds whole part) :
    development.Later whole.machine part.machine := by
  have start := development.refl whole.machine
  cases executes with
  | assigned | binaryLeft | callee | getObject | grouped | logicalLeft | setObject
  | unaryOperand | firstExpression | inner | condition | printed | returned | initializer
  | loop | loopCondition | firstStatement => exact start
  | binaryRight done => exact governs.after here .binaryLeft start (leaves_of_ok done)
  | arguments done => exact governs.after here .callee start (leaves_of_ok done)
  | call done done' =>
      have between := governs.after here .callee start (leaves_of_ok done)
      exact governs.after here (.arguments done) between (leaves_of_ok done')
  | logicalRight done undecided =>
      exact governs.after here .logicalLeft start (leaves_of_ok done)
  | setValue done => exact governs.after here .setObject start (leaves_of_ok done)
  | otherExpressions done =>
      exact governs.after here .firstExpression start (leaves_of_ok done)
  | block done =>
      have pushed := governs.changes here .block start
      rw [leaves_of_ok done] at pushed
      exact development.trans pushed (development.elsewhere _ _)
  | thenBranch done | elseBranch done =>
      exact governs.after here .condition start (Expr.leaves_of_test done)
  | loopBody done =>
      exact governs.after here .loopCondition start (Expr.leaves_of_test done)
  | loopRest done done' =>
      have between := governs.after here .loopCondition start (Expr.leaves_of_test done)
      exact governs.after here (.loopBody done) between (leaves_of_ok done')
  | otherStatements done =>
      exact governs.after here .firstStatement start (leaves_of_ok done)
  | function checked =>
      obtain rfl := (leaves_of_ok checked).symm.trans (leaves_checkCall _ _ _ _)
      exact start
  | construct checked made found bound =>
      obtain rfl := (leaves_of_ok checked).symm.trans (leaves_checkCall _ _ _ _)
      have second := governs.changes here .objectMade start
      rw [leaves_of_ok made] at second
      have third := governs.changes here (.initializerBound found made) second
      rw [leaves_of_ok bound] at third
      exact development.trans second third
  | body entered =>
      have bound := governs.changes here .parametersBound start
      rw [leaves_of_ok entered] at bound
      exact development.trans bound (development.elsewhere _ _)

theorem Governs.holds_part {whole part : Execution} (here : holds whole)
    (executes : Executes rounds whole part) : holds part :=
  governs.parts here executes (governs.starts here executes)

theorem Governs.part_later {whole part : Execution} (here : holds whole)
    (executes : Executes rounds whole part) :
    development.Later part.machine (part.leaves rounds) :=
  governs.later (governs.holds_part here executes)

/-! ### The whole behind its parts -/

theorem Governs.ends_callExpression {callee : Expr} {paren : Occurrence}
    {arguments : List Expr} {part : Execution}
    (here : holds ⟨depth, .expression (.call callee paren arguments), machine⟩)
    (executes : Executes rounds
      ⟨depth, .expression (.call callee paren arguments), machine⟩ part) :
    development.Later (part.leaves rounds) (Execution.leaves rounds
      ⟨depth, .expression (.call callee paren arguments), machine⟩) := by
  have refl := development.refl
  cases executes with
  | callee =>
      simp only [Execution.leaves, Expr.evaluate]
      apply bind_rest
      intro value between done
      apply bind (governs.part_later here (.arguments done))
      intro values between' done' _
      exact governs.part_later here (.call done done')
  | arguments done =>
      simp only [Execution.leaves, Expr.evaluate]
      rw [leaves_bind_of_ok done]
      apply bind_rest
      intro values between done'
      exact governs.part_later here (.call done done')
  | call done done' =>
      simp only [Execution.leaves, Expr.evaluate]
      rw [leaves_bind_of_ok done, leaves_bind_of_ok done']
      exact refl _

theorem Governs.ends_setExpression {object value : Expr} {name : Occurrence}
    {part : Execution} (here : holds ⟨depth, .expression (.set object name value), machine⟩)
    (executes : Executes rounds
      ⟨depth, .expression (.set object name value), machine⟩ part) :
    development.Later (part.leaves rounds) (Execution.leaves rounds
      ⟨depth, .expression (.set object name value), machine⟩) := by
  have start := development.refl machine
  have refl := development.refl
  cases executes with
  | setObject =>
      simp only [Execution.leaves, Expr.evaluate]
      apply bind_rest
      intro found between done
      cases found with
      | object identity description =>
          apply bind (governs.part_later here (.setValue done))
          intro result between' done' reached
          rw [leaves_bind_of_still fun _ _ => rfl]
          have before := governs.after here .setObject start (leaves_of_ok done)
          exact governs.changes here (.fieldSet done done') (development.trans before reached)
      | nil | bool | number | string | function | native | classValue => exact refl between
  | setValue done =>
      simp only [Execution.leaves, Expr.evaluate]
      rw [leaves_bind_of_ok done]
      apply bind_rest
      intro result between done'
      rw [leaves_bind_of_still fun _ _ => rfl]
      have before := governs.after here .setObject start (leaves_of_ok done)
      exact governs.changes here (.fieldSet done done')
        (governs.after here (.setValue done) before (leaves_of_ok done'))

theorem Governs.ends_expression {expression : Expr} {part : Execution}
    (here : holds ⟨depth, .expression expression, machine⟩)
    (executes : Executes rounds ⟨depth, .expression expression, machine⟩ part) :
    development.Later (part.leaves rounds)
      (Execution.leaves rounds ⟨depth, .expression expression, machine⟩) := by
  have start := development.refl machine
  have refl := development.refl
  cases executes with
  | assigned =>
      simp only [Execution.leaves, Expr.evaluate]
      apply bind_rest
      intro result between done
      rw [leaves_bind_of_still fun _ _ => rfl]
      exact governs.changes here (.assigned done)
        (governs.after here .assigned start (leaves_of_ok done))
  | binaryLeft =>
      simp only [Execution.leaves, Expr.evaluate]
      apply bind_rest
      intro value between done
      rw [leaves_bind_of_still fun _ _ => leaves_ofOperator _ _ _]
      exact governs.part_later here (.binaryRight done)
  | binaryRight done =>
      simp only [Execution.leaves, Expr.evaluate]
      rw [leaves_bind_of_ok done, leaves_bind_of_still fun _ _ => leaves_ofOperator _ _ _]
      exact refl _
  | callee => exact governs.ends_callExpression here .callee
  | arguments done => exact governs.ends_callExpression here (.arguments done)
  | call done done' => exact governs.ends_callExpression here (.call done done')
  | getObject =>
      simp only [Execution.leaves, Expr.evaluate]
      apply bind_rest
      intro value between done
      exact governs.changes here (.property done)
        (governs.after here .getObject start (leaves_of_ok done))
  | grouped =>
      simp only [Execution.leaves, Expr.evaluate]
      exact refl _
  | logicalLeft =>
      simp only [Execution.leaves, Expr.evaluate]
      apply bind_rest
      intro value between done
      split
      case isTrue => exact refl between
      case isFalse undecided =>
          exact governs.part_later here (.logicalRight done (Bool.eq_false_iff.mpr undecided))
  | logicalRight done undecided =>
      simp only [Execution.leaves, Expr.evaluate]
      rw [leaves_bind_of_ok done, undecided]
      exact refl _
  | setObject => exact governs.ends_setExpression here .setObject
  | setValue done => exact governs.ends_setExpression here (.setValue done)
  | unaryOperand =>
      simp only [Execution.leaves, Expr.evaluate]
      rw [leaves_bind_of_still fun _ _ => leaves_ofOperator _ _ _]
      exact refl _

theorem Governs.ends_expressions {expressions : List Expr} {part : Execution}
    (here : holds ⟨depth, .expressions expressions, machine⟩)
    (executes : Executes rounds ⟨depth, .expressions expressions, machine⟩ part) :
    development.Later (part.leaves rounds)
      (Execution.leaves rounds ⟨depth, .expressions expressions, machine⟩) := by
  have refl := development.refl
  cases executes with
  | firstExpression =>
      simp only [Execution.leaves, Expr.evaluateAll]
      apply bind_rest
      intro value between done
      rw [leaves_bind_of_still fun _ _ => rfl]
      exact governs.part_later here (.otherExpressions done)
  | otherExpressions done =>
      simp only [Execution.leaves, Expr.evaluateAll]
      rw [leaves_bind_of_ok done, leaves_bind_of_still fun _ _ => rfl]
      exact refl _

theorem Governs.ends_statement {statement : Stmt} {part : Execution}
    (here : holds ⟨depth, .statement statement, machine⟩)
    (executes : Executes rounds ⟨depth, .statement statement, machine⟩ part) :
    development.Later (part.leaves rounds)
      (Execution.leaves rounds ⟨depth, .statement statement, machine⟩) := by
  have start := development.refl machine
  have refl := development.refl
  cases executes with
  | block done =>
      simp only [Execution.leaves, Stmt.execute]
      rw [leaves_bind_of_ok (show currentFrame _ = .ok _ _ from rfl), leaves_bind_of_ok done,
        leaves_within]
      exact development.elsewhere _ _
  | inner | returned =>
      simp only [Execution.leaves, Stmt.execute]
      rw [leaves_bind_of_still fun _ _ => rfl]
      exact refl _
  | @condition depth condition thenBranch elseBranch machine =>
      simp only [Execution.leaves]
      rw [← Expr.leaves_test]
      cases elseBranch with
      | none =>
          rw [Stmt.execute]
          apply bind_rest
          intro holds between done
          cases holds with
          | true => exact governs.part_later here (.thenBranch done)
          | false => exact refl between
      | some elseBranch =>
          rw [Stmt.execute]
          apply bind_rest
          intro holds between done
          cases holds with
          | true => exact governs.part_later here (.thenBranch done)
          | false => exact governs.part_later here (.elseBranch done)
  | @thenBranch depth condition thenBranch elseBranch machine reached done =>
      cases elseBranch with
      | none =>
          simp only [Execution.leaves, Stmt.execute]
          rw [leaves_bind_of_ok done]
          exact refl _
      | some elseBranch =>
          simp only [Execution.leaves, Stmt.execute]
          rw [leaves_bind_of_ok done]
          exact refl _
  | elseBranch done =>
      simp only [Execution.leaves, Stmt.execute]
      rw [leaves_bind_of_ok done]
      exact refl _
  | printed =>
      simp only [Execution.leaves, Stmt.execute]
      apply bind_rest
      intro value between done
      rw [leaves_bind_of_still fun _ _ => rfl]
      exact governs.changes here (.printed done)
        (governs.after here .printed start (leaves_of_ok done))
  | initializer =>
      simp only [Execution.leaves, Stmt.execute]
      apply bind_rest
      intro value between done
      rw [leaves_bind_of_still fun _ _ => rfl]
      exact governs.changes here (.variableDefined done)
        (governs.after here .initializer start (leaves_of_ok done))
  | loop =>
      simp only [Execution.leaves, Stmt.execute]
      exact refl _

theorem Governs.ends_loop {condition : Expr} {body : Stmt} {limit : Nat} {part : Execution}
    (here : holds ⟨depth, .loop condition body limit, machine⟩)
    (executes : Executes rounds ⟨depth, .loop condition body limit, machine⟩ part) :
    development.Later (part.leaves rounds)
      (Execution.leaves rounds ⟨depth, .loop condition body limit, machine⟩) := by
  have refl := development.refl
  cases executes with
  | loopCondition =>
      simp only [Execution.leaves, repeatWhile]
      rw [← Expr.leaves_test]
      apply bind_rest
      intro holds between done
      cases holds with
      | false => exact refl between
      | true =>
          apply bind (governs.part_later here (.loopBody done))
          intro completion between' done' _
          cases completion with
          | finished => exact governs.part_later here (.loopRest done done')
          | returned value => exact refl between'
  | loopBody done =>
      simp only [Execution.leaves, repeatWhile]
      rw [leaves_bind_of_ok done]
      apply bind_rest
      intro completion between done'
      cases completion with
      | finished => exact governs.part_later here (.loopRest done done')
      | returned value => exact refl between
  | loopRest done done' =>
      simp only [Execution.leaves, repeatWhile]
      rw [leaves_bind_of_ok done, if_pos rfl, leaves_bind_of_ok done']
      exact refl _

theorem Governs.ends_statements {statements : List Stmt} {part : Execution}
    (here : holds ⟨depth, .statements statements, machine⟩)
    (executes : Executes rounds ⟨depth, .statements statements, machine⟩ part) :
    development.Later (part.leaves rounds)
      (Execution.leaves rounds ⟨depth, .statements statements, machine⟩) := by
  have refl := development.refl
  cases executes with
  | firstStatement =>
      simp only [Execution.leaves, Stmt.executeAll]
      apply bind_rest
      intro completion between done
      cases completion with
      | finished => exact governs.part_later here (.otherStatements done)
      | returned value => exact refl between
  | otherStatements done =>
      simp only [Execution.leaves, Stmt.executeAll]
      rw [leaves_bind_of_ok done]
      exact refl _

/-- The whole leaves a later machine than any of its parts. -/
theorem Governs.ends {whole part : Execution} (here : holds whole)
    (executes : Executes rounds whole part) :
    development.Later (part.leaves rounds) (whole.leaves rounds) := by
  cases whole with
  | mk depth task machine =>
      cases task with
      | expression => exact governs.ends_expression here executes
      | expressions => exact governs.ends_expressions here executes
      | statement => exact governs.ends_statement here executes
      | statements => exact governs.ends_statements here executes
      | loop => exact governs.ends_loop here executes
      | call => exact ends_call executes
      | closure => exact ends_closure executes

end Course

end Development

end LoxLang
