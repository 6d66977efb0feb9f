import LoxLang.Proofs.Lexical.Session
import LoxLang.Reading.Statement

/-! # Loops as they are written

A loop with clauses is read as a block around a `while` loop. Here it is a statement of
its own, with a meaning of its own: the initializer, if there is one, has a scope to
itself, and in that one scope the condition is tested, the body executed and the increment
evaluated, round after round.
-/

namespace LoxLang.Lexical

inductive LoopStart where
  | nothing
  | declares (name : Occurrence) (initializer : Option Expr)
  | evaluates (expression : Expr)

def LoopStart.statement? : LoopStart → Option Stmt
  | nothing => none
  | declares name initializer => some (.var name initializer)
  | evaluates expression => some (.expression expression)

/-- A statement as it is written. The bodies of routines are left as they are read. -/
inductive Written where
  | block (statements : List Written)
  | classDecl (name : Occurrence) (superclass : Option Occurrence)
      (methods : List Routine)
  | expression (expression : Expr)
  | forLoop (start : LoopStart) (condition increment : Option Expr) (body : Written)
  | function (routine : Routine)
  | ifThen (condition : Expr) (thenBranch : Written) (elseBranch : Option Written)
  | print (expression : Expr)
  | returns (keyword : Occurrence) (value : Option Expr)
  | var (name : Occurrence) (initializer : Option Expr)
  | whileLoop (condition : Expr) (body : Written)

namespace Written

mutual

def desugar : Written → Stmt
  | block statements => .block (desugarAll statements)
  | classDecl name superclass methods => .classDecl name superclass methods
  | expression inner => .expression inner
  | forLoop start condition increment body =>
    .forLoop start.statement? condition increment body.desugar
  | function routine => .function routine
  | ifThen condition thenBranch none => .ifThen condition thenBranch.desugar none
  | ifThen condition thenBranch (some elseBranch) =>
    .ifThen condition thenBranch.desugar (some elseBranch.desugar)
  | print inner => .print inner
  | returns keyword value => .returns keyword value
  | var name initializer => .var name initializer
  | whileLoop condition body => .whileLoop condition body.desugar

def desugarAll : List Written → List Stmt
  | [] => []
  | statement :: rest => statement.desugar :: desugarAll rest

end

end Written

/-! ## The meaning of loops -/

/-- The view of the clauses and the body: a new scope inside the view if the loop starts
with an initializer, in which the name that it declares has its cell. -/
def enterLoop (call : Caller) (view : View) : LoopStart → Action View
  | .nothing => pure view
  | .declares name initializer => do
    let inner ← declare name.lexeme (.inside view.cells)
    let value ← evaluateOption call inner initializer
    define inner name.lexeme value
    pure inner
  | .evaluates expression => do
    let _ ← evaluate call (.inside view.cells) expression
    pure (.inside view.cells)

def testClause (call : Caller) (view : View) : Option Expr → Action Bool
  | none => pure true
  | some condition => test call view condition

def stepClause (call : Caller) (view : View) : Option Expr → Action Unit
  | none => pure ()
  | some increment => do
    let _ ← evaluate call view increment
    pure ()

/-- The rounds of a loop, at most `limit` of them: it stops if the condition does not hold
or the body returns, and takes the step before the next round. -/
def repeatFor (condition : Action Bool) (body : Action (Completion View))
    (step : Action Unit) : Nat → Action (Completion View)
  | 0 => throw .unfinished
  | limit + 1 => do
    if ← condition then
      match ← body with
      | .finished => do
        step
        repeatFor condition body step limit
      | .returned value => pure (.returned value)
    else pure .finished

namespace Written

mutual

def execute (call : Caller) (rounds : Nat) (view : View) :
    Written → Action (Completion View × View)
  | block statements => do
    let completion ← executeAll call rounds (.inside view.cells) statements
    pure (completion, view)
  | classDecl name superclass methods => do
    let view ← declareClass view name superclass methods
    pure (.finished, view)
  | expression inner => do
    let _ ← evaluate call view inner
    pure (.finished, view)
  | forLoop start condition increment body => do
    let inner ← enterLoop call view start
    let completion ← repeatFor (testClause call inner condition)
      ((·.1) <$> body.execute call rounds inner) (stepClause call inner increment) rounds
    pure (completion, view)
  | function routine => do
    let view ← declareFunction view routine
    pure (.finished, view)
  | ifThen condition thenBranch none => do
    if ← test call view condition then do
      let (completion, _) ← thenBranch.execute call rounds view
      pure (completion, view)
    else pure (.finished, view)
  | ifThen condition thenBranch (some elseBranch) => do
    if ← test call view condition then do
      let (completion, _) ← thenBranch.execute call rounds view
      pure (completion, view)
    else do
      let (completion, _) ← elseBranch.execute call rounds view
      pure (completion, view)
  | print inner => do
    let value ← evaluate call view inner
    Lexical.print value.text
    pure (.finished, view)
  | returns _ value => do
    let value ← evaluateOption call view value
    pure (.returned value, view)
  | var name initializer => do
    let view ← declare name.lexeme view
    let value ← evaluateOption call view initializer
    define view name.lexeme value
    pure (.finished, view)
  | whileLoop condition body => do
    let completion ← Action.repeatWhile (test call view condition)
      ((·.1) <$> body.execute call rounds view) rounds
    pure (completion, view)

def executeAll (call : Caller) (rounds : Nat) (view : View) :
    List Written → Action (Completion View)
  | [] => pure .finished
  | statement :: rest => do
    match ← statement.execute call rounds view with
    | (.finished, view) => executeAll call rounds view rest
    | (.returned value, _) => pure (.returned value)

end

end Written

end LoxLang.Lexical
