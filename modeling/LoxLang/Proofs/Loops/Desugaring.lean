import LoxLang.Proofs.Loops.Written
import LoxLang.Proofs.Reading.StatementSoundness

/-! # What loops are read as has their meaning

The block around a loop and the block around its body and increment take no cells, and
nothing that the body declares is seen behind it. So the tree of a loop is executed
exactly as the loop is, in every view and with every way of calling.
-/

namespace LoxLang.Lexical

open Grammar

/-! ## Statements that declare nothing -/

/-- The statement declares nothing outside of the blocks in it. -/
inductive Quiet : Stmt → Prop
  | block (statements : List Stmt) : Quiet (.block statements)
  | expression (inner : Expr) : Quiet (.expression inner)
  | ifThen {condition : Expr} {thenBranch : Stmt} (thenQuiet : Quiet thenBranch) :
      Quiet (.ifThen condition thenBranch none)
  | ifElse {condition : Expr} {thenBranch elseBranch : Stmt} (thenQuiet : Quiet thenBranch)
      (elseQuiet : Quiet elseBranch) :
      Quiet (.ifThen condition thenBranch (some elseBranch))
  | print (inner : Expr) : Quiet (.print inner)
  | returns (keyword : Occurrence) (value : Option Expr) : Quiet (.returns keyword value)
  | whileLoop {condition : Expr} {body : Stmt} (bodyQuiet : Quiet body) :
      Quiet (.whileLoop condition body)

def QuietTree : (phrase : StatementPhrase) → phrase.Tree → Prop
  | .statement _, tree => Quiet tree
  | _, _ => True

theorem quiet_of_statement {rule : ElseRule} {phrase : StatementPhrase}
    {tokens : List Occurrence} {tree : phrase.Tree}
    (derivation : Statement rule phrase tokens tree) : QuietTree phrase tree := by
  induction derivation with
  | expressionStatement phrase =>
      cases phrase
      exact .expression _
  | blockStatement => exact .block _
  | printStatement => exact .print _
  | returnStatement => exact .returns _ _
  | whileStatement _ _ _ _ _ bodyQuiet => exact .whileLoop bodyQuiet
  | @forStatement _ _ _ _ _ _ _ _ _ initializer _ increment _ _ _ _ _ _ _ _ _ bodyQuiet =>
      cases initializer with
      | some => exact .block _
      | none =>
          cases increment with
          | some => exact .whileLoop (.block _)
          | none => exact .whileLoop bodyQuiet
  | ifStatement _ _ _ _ _ thenQuiet => exact .ifThen thenQuiet
  | ifElseStatement _ _ _ _ _ _ _ _ thenQuiet elseQuiet => exact .ifElse thenQuiet elseQuiet
  | _ => trivial

theorem exists_loopStart {tokens : List Occurrence} {initializer : Option Stmt}
    (phrase : ForInitializer tokens initializer) :
    ∃ start : LoopStart, start.statement? = initializer := by
  cases phrase with
  | absent => exact ⟨.nothing, rfl⟩
  | declaration phrase =>
      cases phrase
      exact ⟨.declares _ _, rfl⟩
  | expression phrase =>
      cases phrase
      exact ⟨.evaluates _, rfl⟩

/-! ## Views with the same cells -/

section SameCells

variable {call : Caller} {view view' : View}

mutual

theorem evaluate_of_cells (same : ∀ name, view.cell? name = view'.cell? name) :
    ∀ expression : Expr, evaluate call view expression = evaluate call view' expression
  | .assign name value => by
      simp only [evaluate, assign, same, evaluate_of_cells same value]
  | .binary left _ _ right | .logical left _ _ right => by
      simp only [evaluate, evaluate_of_cells same left, evaluate_of_cells same right]
  | .call callee _ arguments => by
      simp only [evaluate, evaluate_of_cells same callee, evaluateAll_of_cells same arguments]
  | .get object _ => by simp only [evaluate, evaluate_of_cells same object]
  | .grouping inner => by simp only [evaluate, evaluate_of_cells same inner]
  | .literal _ => by simp only [evaluate]
  | .set object _ value => by
      simp only [evaluate, evaluate_of_cells same object, evaluate_of_cells same value]
  | .super _ _ => by simp only [evaluate, superMethod, same]
  | .this _ | .variable _ => by simp only [evaluate, read, same]
  | .unary _ _ right => by simp only [evaluate, evaluate_of_cells same right]

theorem evaluateAll_of_cells (same : ∀ name, view.cell? name = view'.cell? name) :
    ∀ expressions : List Expr,
      evaluateAll call view expressions = evaluateAll call view' expressions
  | [] => by simp only [evaluateAll]
  | expression :: rest => by
      simp only [evaluateAll, evaluate_of_cells same expression,
        evaluateAll_of_cells same rest]

end

theorem evaluate_inside (expression : Expr) :
    evaluate call (.inside view.cells) expression = evaluate call view expression :=
  evaluate_of_cells (by simp) expression

end SameCells

section Quiet

variable {call : Caller} {rounds : Nat} {view : View}

/-- A statement that declares nothing does in a view what it does in a new scope inside
it, and leaves the view as it was. -/
theorem Quiet.execute_inside {statement : Stmt} (quiet : Quiet statement) :
    execute call rounds view statement = (do
      let (completion, _) ← execute call rounds (.inside view.cells) statement
      pure (completion, view)) := by
  induction quiet generalizing view with
  | block statements => simp [execute, View.cells]
  | expression inner => simp [execute, evaluate_inside]
  | ifThen _ induction =>
      rw [execute, execute, induction]
      simp only [test, evaluate_inside, bind_assoc, pure_bind]
      congr
      funext value
      split <;> simp
  | ifElse _ _ induction induction' =>
      rw [execute, execute, induction, induction']
      simp only [test, evaluate_inside, bind_assoc, pure_bind]
      congr
      funext value
      split <;> simp
  | print inner => simp [execute, evaluate_inside]
  | returns keyword value =>
      cases value <;> simp [execute, evaluateOption, evaluate_inside]
  | whileLoop _ induction =>
      rw [execute, execute, induction]
      simp [test, evaluate_inside]

/-! ## Loops -/

theorem executeAll_singleton (statement : Stmt) :
    executeAll call rounds view [statement] = (·.1) <$> execute call rounds view statement := by
  rw [executeAll, map_eq_pure_bind]
  congr
  funext outcome
  rcases outcome with ⟨_ | _, _⟩ <;> rfl

/-- A body that is followed by a step unless it returns makes the rounds of a `while` loop
those of a loop with that step. -/
theorem repeatWhile_eq_repeatFor (condition : Action Bool) (body : Action (Completion View))
    (step : Action Unit) (limit : Nat) :
    Action.repeatWhile condition
      (do match ← body with
        | .finished => do
          step
          pure .finished
        | .returned value => pure (.returned value)) limit =
      repeatFor condition body step limit := by
  induction limit with
  | zero => rfl
  | succ limit induction =>
      rw [Action.repeatWhile, repeatFor, induction]
      congr
      funext holds
      cases holds with
      | false => rfl
      | true =>
          simp only [if_true, bind_assoc]
          congr
          funext completion
          cases completion with
          | finished => simp only [bind_assoc, pure_bind]
          | returned value => simp only [pure_bind]

theorem test_getD (call : Caller) (view : View) (condition : Option Expr) :
    test call view (condition.getD (.literal (.bool true))) =
      testClause call view condition := by
  cases condition with
  | none => rfl
  | some condition => rfl

theorem execute_repeatedByFor {call : Caller} {rounds : Nat} {view : View} {body : Stmt}
    (quiet : Quiet body) (increment : Option Expr) :
    ((·.1) <$> execute call rounds view (repeatedByFor body increment)) =
      (do match ← (·.1) <$> execute call rounds view body with
        | .finished => do
          stepClause call view increment
          pure .finished
        | .returned value => pure (.returned value)) := by
  cases increment with
  | none =>
      simp only [repeatedByFor, map_eq_pure_bind, stepClause, bind_assoc, pure_bind]
      congr
      funext outcome
      rcases outcome with ⟨_ | _, _⟩ <;> rfl
  | some increment =>
      rw [repeatedByFor, quiet.execute_inside]
      simp only [execute, executeAll, map_eq_pure_bind, bind_assoc, pure_bind, stepClause]
      rw [quiet.execute_inside]
      simp only [bind_assoc, pure_bind]
      congr
      funext outcome
      rcases outcome with ⟨_ | _, _⟩ <;> simp [evaluate_inside]

theorem execute_forLoop {call : Caller} {rounds : Nat} {view : View} {body : Stmt}
    (quiet : Quiet body) (start : LoopStart) (condition increment : Option Expr) :
    execute call rounds view (.forLoop start.statement? condition increment body) = (do
      let inner ← enterLoop call view start
      let completion ← repeatFor (testClause call inner condition)
        ((·.1) <$> execute call rounds inner body) (stepClause call inner increment) rounds
      pure (completion, view)) := by
  have loop : ∀ inner, Action.repeatWhile
      (test call inner (condition.getD (.literal (.bool true))))
      ((·.1) <$> execute call rounds inner (repeatedByFor body increment)) rounds =
      repeatFor (testClause call inner condition)
        ((·.1) <$> execute call rounds inner body) (stepClause call inner increment)
        rounds := by
    intro inner
    rw [execute_repeatedByFor quiet, repeatWhile_eq_repeatFor, test_getD]
  rw [Reader.forLoop_eq_forTree]
  cases start with
  | nothing =>
      simp only [LoopStart.statement?, forTree, execute, enterLoop, loop, pure_bind]
  | declares name initializer =>
      rw [LoopStart.statement?, forTree, execute, executeAll, execute]
      simp only [bind_assoc, pure_bind, executeAll_singleton, execute, enterLoop, loop,
        map_bind, map_pure]
  | evaluates expression =>
      rw [LoopStart.statement?, forTree, execute, executeAll, execute]
      simp only [bind_assoc, pure_bind, executeAll_singleton, execute, enterLoop, loop,
        map_bind, map_pure]

end Quiet

theorem enterLoop_declares {call : Caller} {view inner : View} {name : Occurrence}
    {initializer : Option Expr} {machine later : Machine}
    (entered : enterLoop call view (.declares name initializer) machine = .ok inner later) :
    inner = view.extend name.lexeme machine.cells.size := by
  simp only [enterLoop, declare, newCell, Bind.bind, EStateM.bind, Pure.pure, EStateM.pure]
    at entered
  split at entered
  · split at entered
    · exact ((EStateM.Result.ok.inj entered).1).symm
    · cases entered
  · cases entered

/-! ## Programs as they are written -/

namespace Written

mutual

def Proper : Written → Prop
  | block statements => ProperAll statements
  | forLoop _ _ _ body => Quiet body.desugar ∧ body.Proper
  | ifThen _ thenBranch none => thenBranch.Proper
  | ifThen _ thenBranch (some elseBranch) => thenBranch.Proper ∧ elseBranch.Proper
  | whileLoop _ body => body.Proper
  | _ => True

def ProperAll : List Written → Prop
  | [] => True
  | statement :: rest => statement.Proper ∧ ProperAll rest

end

variable {call : Caller} {rounds : Nat}

mutual

/-- The tree that is read for a statement is executed as the statement is. -/
theorem execute_desugar (view : View) : ∀ statement : Written, statement.Proper →
    Lexical.execute call rounds view statement.desugar = statement.execute call rounds view
  | block statements, proper => by
      rw [desugar, Lexical.execute, execute, executeAll_desugarAll _ statements proper]
  | forLoop start condition increment body, ⟨quiet, proper⟩ => by
      rw [desugar, execute_forLoop quiet, execute]
      simp only [execute_desugar _ body proper]
  | ifThen condition thenBranch none, proper => by
      rw [desugar, Lexical.execute, execute, execute_desugar _ thenBranch proper]
  | ifThen condition thenBranch (some elseBranch), ⟨thenProper, elseProper⟩ => by
      rw [desugar, Lexical.execute, execute, execute_desugar _ thenBranch thenProper,
        execute_desugar _ elseBranch elseProper]
  | whileLoop condition body, proper => by
      rw [desugar, Lexical.execute, execute, execute_desugar _ body proper]
  | classDecl _ _ _, _ | expression _, _ | function _, _ | print _, _ | returns _ _, _
  | var _ _, _ => by rw [desugar, Lexical.execute, execute]

theorem executeAll_desugarAll (view : View) : ∀ statements : List Written,
    ProperAll statements →
      Lexical.executeAll call rounds view (desugarAll statements) =
        executeAll call rounds view statements
  | [], _ => by rw [desugarAll, Lexical.executeAll, executeAll]
  | statement :: rest, ⟨proper, properRest⟩ => by
      rw [desugarAll, Lexical.executeAll, executeAll, execute_desugar _ statement proper]
      congr
      funext outcome
      rcases outcome with ⟨_ | value, behind⟩
      · exact executeAll_desugarAll behind rest properRest
      · rfl

end

end Written

end LoxLang.Lexical
