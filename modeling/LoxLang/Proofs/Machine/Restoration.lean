import LoxLang.Proofs.Machine.CurrentFrame
import LoxLang.Session.Unchecked

/-! # Programs come back to their frame

Expressions, statements and calls leave the machine in the frame it was in, for every
tree, whether its references are bound or not, and for every machine. So a session is in
the global frame after each of its steps.
-/

namespace LoxLang

open LoxLang.Action

/-! ## Expressions -/

def Caller.Restores (call : Caller) : Prop :=
  ∀ paren callee arguments, Action.Restores (call paren callee arguments)

section Trees

variable {call : Caller}

mutual

theorem restores_evaluate (calls : call.Restores) :
    ∀ expression : Expr, Restores (expression.evaluate call)
  | .assign name value => by
      rw [Expr.evaluate]
      apply (restores_evaluate calls value).bind
      intro result
      exact (preserves_assign .current name result).restores.bind fun _ => .pure _
  | .binary left operator word right => by
      rw [Expr.evaluate]
      apply (restores_evaluate calls left).bind
      intro value
      apply (restores_evaluate calls right).bind
      intro other
      exact preserves_ofOperator .current word _
  | .call callee paren arguments => by
      rw [Expr.evaluate]
      apply (restores_evaluate calls callee).bind
      intro value
      apply (restores_evaluateAll calls arguments).bind
      intro values
      exact calls paren value values
  | .get object name => by
      rw [Expr.evaluate]
      exact (restores_evaluate calls object).bind fun value =>
        preserves_property .current value name
  | .grouping inner => by
      rw [Expr.evaluate]
      exact restores_evaluate calls inner
  | .literal value => by
      rw [Expr.evaluate]
      exact .pure _
  | .logical left operator word right => by
      rw [Expr.evaluate]
      apply (restores_evaluate calls left).bind
      intro value
      split
      · exact .pure _
      · exact restores_evaluate calls right
  | .set object name value => by
      rw [Expr.evaluate]
      apply (restores_evaluate calls object).bind
      intro found
      cases found with
      | object identity description =>
          apply (restores_evaluate calls value).bind
          intro result
          have fieldSet : Restores (setField identity name.lexeme result) := fun _ => rfl
          exact fieldSet.bind fun _ => .pure _
      | nil | bool | number | string | function | native | classValue => exact .throw _
  | .super keyword method => by
      rw [Expr.evaluate]
      exact preserves_superMethod .current keyword method
  | .this keyword => by
      rw [Expr.evaluate]
      exact preserves_read .current keyword
  | .unary operator word right => by
      rw [Expr.evaluate]
      exact (restores_evaluate calls right).bind fun _ =>
        preserves_ofOperator .current word _
  | .variable name => by
      rw [Expr.evaluate]
      exact preserves_read .current name

theorem restores_evaluateAll (calls : call.Restores) :
    ∀ expressions : List Expr, Restores (Expr.evaluateAll call expressions)
  | [] => by
      rw [Expr.evaluateAll]
      exact .pure _
  | expression :: rest => by
      rw [Expr.evaluateAll]
      apply (restores_evaluate calls expression).bind
      intro value
      exact (restores_evaluateAll calls rest).bind fun _ => .pure _

end

theorem restores_evaluateOption (calls : call.Restores) (expression : Option Expr) :
    Restores (Expr.evaluateOption call expression) := by
  cases expression with
  | none => exact .pure _
  | some expression => exact restores_evaluate calls expression

theorem restores_test (calls : call.Restores) (condition : Expr) :
    Restores (condition.test call) :=
  (restores_evaluate calls condition).bind fun _ => .pure _

/-! ## Statements -/

variable {rounds : Nat}

mutual

theorem restores_execute (calls : call.Restores) :
    ∀ statement : Stmt, Restores (statement.execute call rounds)
  | .block statements => by
      rw [Stmt.execute]
      apply (preserves_currentFrame .current).restores.bind
      intro frame
      exact (preserves_newFrame .current frame).restores.bind fun inner =>
        restores_within inner _
  | .classDecl name superclass methods => by
      rw [Stmt.execute]
      exact (preserves_declareClass .current name superclass methods).restores.bind fun _ =>
        .pure _
  | .expression inner => by
      rw [Stmt.execute]
      exact (restores_evaluate calls inner).bind fun _ => .pure _
  | .function routine => by
      rw [Stmt.execute]
      exact (preserves_declareFunction .current routine).restores.bind fun _ => .pure _
  | .ifThen condition thenBranch none => by
      rw [Stmt.execute]
      apply (restores_test calls condition).bind
      intro holds
      split
      · exact restores_execute calls thenBranch
      · exact .pure _
  | .ifThen condition thenBranch (some elseBranch) => by
      rw [Stmt.execute]
      apply (restores_test calls condition).bind
      intro holds
      split
      · exact restores_execute calls thenBranch
      · exact restores_execute calls elseBranch
  | .print inner => by
      rw [Stmt.execute]
      apply (restores_evaluate calls inner).bind
      intro value
      have printed : Restores (Action.print value.text) := fun _ => rfl
      exact printed.bind fun _ => .pure _
  | .returns keyword value => by
      rw [Stmt.execute]
      exact (restores_evaluateOption calls value).bind fun _ => .pure _
  | .var name initializer => by
      rw [Stmt.execute]
      apply (restores_evaluateOption calls initializer).bind
      intro value
      exact (preserves_define .current name.lexeme value).restores.bind fun _ => .pure _
  | .whileLoop condition body => by
      rw [Stmt.execute]
      exact restores_repeatWhile (restores_test calls condition)
        (restores_execute calls body) rounds

theorem restores_executeAll (calls : call.Restores) :
    ∀ statements : List Stmt, Restores (Stmt.executeAll call rounds statements)
  | [] => by
      rw [Stmt.executeAll]
      exact .pure _
  | statement :: rest => by
      rw [Stmt.executeAll]
      apply (restores_execute calls statement).bind
      rintro (_ | value)
      · exact restores_executeAll calls rest
      · exact .pure _

end

end Trees

/-! ## Calls -/

section Calls

theorem restores_callClosure (run : BodyRunner) (closure : Closure)
    (arguments : List Value) : Restores (callClosure run closure arguments) := by
  apply (preserves_newFrame .current closure.frame).restores.bind
  intro frame
  apply (preserves_defineAll .current frame _ _).restores.bind
  intro
  apply (restores_within frame _).bind
  intro completion
  split
  · exact preserves_valueIn .current _ _
  · exact .pure _

theorem restores_construct (run : BodyRunner) (description : Class)
    (arguments : List Value) : Restores (construct run description arguments) := by
  have created : Restores (newObject description) := fun _ => rfl
  apply created.bind
  intro object
  split
  · apply (preserves_bindThis .current _ object).restores.bind
    intro initializer
    exact (restores_callClosure run initializer arguments).bind fun _ => .pure _
  · exact .pure _

theorem restores_callValue (run : BodyRunner) (callee : Value) (arguments : List Value) :
    Restores (callValue run callee arguments) := by
  cases callee with
  | native builtIn => exact preserves_answer .current _ _
  | function identity closure => exact restores_callClosure run closure arguments
  | classValue description => exact restores_construct run description arguments
  | nil | bool | number | string | object => exact .throw _

theorem restores_callWithin (rounds : Nat) : ∀ depth, (callWithin rounds depth).Restores
  | 0 => fun paren callee arguments =>
    (preserves_checkCall .current paren callee arguments).restores.bind fun _ => .throw _
  | _ + 1 => fun paren callee arguments =>
    (preserves_checkCall .current paren callee arguments).restores.bind fun _ =>
      restores_callValue _ callee arguments

theorem restores_runProgram (budget : Budget) :
    ∀ statements, Restores (runProgram budget statements)
  | [] => .pure _
  | statement :: rest =>
    (restores_execute (restores_callWithin _ _) statement).bind fun _ =>
      restores_runProgram budget rest

end Calls

/-! ## Sessions -/

namespace Session

/-- What can be asked of a session. -/
inductive Step where
  | run (budget : Budget) (source : String)
  | runUnchecked (budget : Budget) (source : String)
  | runBlock (budget : Budget) (source : String)
  | defineNative (name : String) (arity : Nat) (answer : NativeAnswer)
  | callGlobal (budget : Budget) (name : String) (arguments : List Value)
  | reset

def take (session : Session) : Step → Session
  | .run budget source => (session.run budget source).1
  | .runUnchecked budget source => (session.runUnchecked budget source).1
  | .runBlock budget source => (session.runBlock budget source).1
  | .defineNative name arity answer => (session.defineNative name arity answer).1
  | .callGlobal budget name arguments => (session.callGlobal budget name arguments).1
  | .reset => session.reset

def takeAll (session : Session) (steps : List Step) : Session := steps.foldl take session

variable (session : Session)

theorem current_perform {action : Action α} (restores : action.Restores) :
    (session.perform action).1.machine.current = session.machine.current := by
  have same := restores session.machine
  simp only [leaves] at same
  rw [perform]
  split <;> simp_all [Machine.takePrinted]

theorem current_run (budget : Budget) (source : String) :
    (session.run budget source).1.machine.current = session.machine.current := by
  have same := (session.accept (.ofSource session.nextPlace source)).current_perform
    (restores_runProgram budget (Program.ofSource session.nextPlace source).statements)
  simp only [run]
  split
  · split <;> exact same
  · rfl

theorem current_take (step : Step) :
    (session.take step).machine.current = session.machine.current := by
  cases step with
  | run budget source => exact session.current_run budget source
  | runUnchecked budget source =>
      exact (session.accept _).current_perform (restores_runProgram budget _)
  | runBlock budget source =>
      refine (session.accept _).current_perform ?_
      exact (preserves_newFrame .current _).restores.bind fun frame =>
        restores_within frame _
  | defineNative name arity answer =>
      refine session.current_perform ?_
      exact (preserves_newIdentity .current).restores.bind fun _ =>
        (preserves_defineIn .current _ _ _).restores
  | callGlobal budget name arguments =>
      refine session.current_perform ?_
      apply (preserves_valueIn .current _ name).restores.bind
      intro callee
      exact (restores_callValue _ callee arguments).bind fun _ => .pure _
  | reset => rfl

theorem current_takeAll (steps : List Step) :
    (session.takeAll steps).machine.current = session.machine.current := by
  induction steps generalizing session with
  | nil => rfl
  | cons step rest induction =>
      exact (induction (session.take step)).trans (session.current_take step)

/-- Every expression, statement, block, declaration and call comes back to the frame it
started in, however it ends; a class declaration does so although it enters the frame of
its superclass step by step. A session is in the global frame after all its steps. -/
theorem comes_back (budget : Budget) :
    (∀ expression : Expr, Restores (expression.evaluate budget.caller)) ∧
      (∀ statement : Stmt, Restores (statement.execute budget.caller budget.rounds)) ∧
      (∀ frame statements, Restores (within frame (budget.runner statements))) ∧
      (∀ name clause methods,
        Restores (declareClass name clause methods) ∧
          Restores (declareClassInSteps name clause methods) ∧
          ∀ machine : Machine, machine.current < machine.frames.size →
            declareClassInSteps name clause methods machine =
              declareClass name clause methods machine) ∧
      (∀ callee arguments, Restores (callValue budget.runner callee arguments)) ∧
      (∀ paren callee arguments, Restores (budget.caller paren callee arguments)) ∧
      (∀ statements, Restores (runProgram budget statements)) ∧
      ∀ clock steps, ((start clock).takeAll steps).machine.current = Machine.globals := by
  have calls : budget.caller.Restores := restores_callWithin budget.rounds budget.depth
  refine ⟨restores_evaluate calls, restores_execute calls,
    fun frame statements => restores_within frame _, fun name clause methods => ?_,
    restores_callValue budget.runner, calls, restores_runProgram budget,
    fun clock steps => (start clock).current_takeAll steps⟩
  exact ⟨preserves_declareClass .current name clause methods,
    restores_declareClassInSteps name clause methods,
    fun _ inFrame => declareClassInSteps_eq name clause methods inFrame⟩

end Session

end LoxLang
