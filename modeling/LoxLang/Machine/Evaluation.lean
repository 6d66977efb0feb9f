import LoxLang.Machine.Objects
import LoxLang.Value.Text

/-!
# Evaluating and executing

The meaning of an expression or statement is built from the meanings of its parts. Two
things do not follow the tree: a call, whose meaning comes from outside as a parameter,
and a loop, which is given a number of rounds that it may take.
-/

namespace LoxLang

abbrev Caller := Occurrence → Value → List Value → Action Value

mutual

/-- The value of an expression. Operands and arguments are evaluated from left to
right. -/
def Expr.evaluate (call : Caller) : Expr → Action Value
  | .assign name value => do
    let value ← value.evaluate call
    Action.assign name value
    pure value
  | .binary left operator word right => do
    let left ← left.evaluate call
    let right ← right.evaluate call
    Action.ofOperator word (operator.apply left right)
  | .call callee paren arguments => do
    let callee ← callee.evaluate call
    let arguments ← Expr.evaluateAll call arguments
    call paren callee arguments
  | .get object name => do
    let object ← object.evaluate call
    Action.property object name
  | .grouping inner => inner.evaluate call
  | .literal value => pure value.value
  | .logical left operator _ right => do
    let left ← left.evaluate call
    if operator.decidedBy left then pure left else right.evaluate call
  | .set object name value => do
    match ← object.evaluate call with
    | .object identity _ => do
      let value ← value.evaluate call
      Action.setField identity name.lexeme value
      pure value
    | _ => Action.fail name .fieldOfNonObject
  | .super keyword method => Action.superMethod keyword method
  | .this keyword => Action.read keyword
  | .unary operator word right => do
    let right ← right.evaluate call
    Action.ofOperator word (operator.apply right)
  | .variable name => Action.read name

def Expr.evaluateAll (call : Caller) : List Expr → Action (List Value)
  | [] => pure []
  | expression :: rest => do
    let value ← expression.evaluate call
    let values ← Expr.evaluateAll call rest
    pure (value :: values)

end

def Expr.evaluateOption (call : Caller) : Option Expr → Action Value
  | none => pure .nil
  | some expression => expression.evaluate call

def Expr.test (call : Caller) (condition : Expr) : Action Bool := do
  let value ← condition.evaluate call
  pure value.isTruthy

mutual

/-- Executes a statement, whose loops may take at most `rounds` rounds each. -/
def Stmt.execute (call : Caller) (rounds : Nat) : Stmt → Action Completion
  | .block statements => do
    let frame ← Action.newFrame (← Action.currentFrame)
    Action.within frame (Stmt.executeAll call rounds statements)
  | .classDecl name superclass methods => do
    Action.declareClass name superclass methods
    pure .finished
  | .expression inner => do
    let _ ← inner.evaluate call
    pure .finished
  | .function routine => do
    Action.declareFunction routine
    pure .finished
  | .ifThen condition thenBranch none => do
    if ← condition.test call then thenBranch.execute call rounds else pure .finished
  | .ifThen condition thenBranch (some elseBranch) => do
    if ← condition.test call then thenBranch.execute call rounds
    else elseBranch.execute call rounds
  | .print inner => do
    let value ← inner.evaluate call
    Action.print value.text
    pure .finished
  | .returns _ value => do
    let value ← Expr.evaluateOption call value
    pure (.returned value)
  | .var name initializer => do
    let value ← Expr.evaluateOption call initializer
    Action.define name.lexeme value
    pure .finished
  | .whileLoop condition body =>
    Action.repeatWhile (condition.test call) (body.execute call rounds) rounds

/-- Executes statements one after the other up to the first that returns. -/
def Stmt.executeAll (call : Caller) (rounds : Nat) : List Stmt → Action Completion
  | [] => pure .finished
  | statement :: rest => do
    match ← statement.execute call rounds with
    | .finished => Stmt.executeAll call rounds rest
    | .returned value => pure (.returned value)

end

end LoxLang
