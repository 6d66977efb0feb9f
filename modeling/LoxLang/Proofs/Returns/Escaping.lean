import LoxLang.Machine.Calls

/-! # Returns that escape

A machine on which `return` is an exception. It carries its value past everything that is
still to be done, through loops and branches and out of the frames of blocks, until the
call of the innermost active routine catches it. Nothing else looks at it: blocks, loops
and branches know of no completions here.
-/

namespace LoxLang

inductive Exit where
  | stop (stop : Stop)
  | returned (value : Value)

/-- What changes a machine and may be broken off. -/
abbrev Escaping := EStateM Exit Machine

namespace Escaping

def lift (action : Action α) : Escaping α := fun machine =>
  match action machine with
  | .ok result machine => .ok result machine
  | .error stop machine => .error (.stop stop) machine

def within (frame : FrameId) (action : Escaping α) : Escaping α := fun machine =>
  let previous := machine.current
  match action { machine with current := frame } with
  | .ok result machine => .ok result { machine with current := previous }
  | .error exit machine => .error exit { machine with current := previous }

def repeatWhile (condition : Escaping Bool) (body : Escaping Unit) : Nat → Escaping Unit
  | 0 => throw (.stop .unfinished)
  | limit + 1 => do
    if ← condition then do
      body
      repeatWhile condition body limit
    else pure ()

/-- The value with which a body is broken off by a return, or `nil` if it comes to its
end. -/
def catchReturn (body : Escaping Unit) : Escaping Value := fun machine =>
  match body machine with
  | .ok _ machine => .ok .nil machine
  | .error (.returned value) machine => .ok value machine
  | .error (.stop stop) machine => .error (.stop stop) machine

/-! ## Expressions and statements -/

abbrev Caller := Occurrence → Value → List Value → Escaping Value

mutual

def evaluate (call : Caller) : Expr → Escaping Value
  | .assign name value => do
    let value ← evaluate call value
    lift (Action.assign name value)
    pure value
  | .binary left operator word right => do
    let left ← evaluate call left
    let right ← evaluate call right
    lift (Action.ofOperator word (operator.apply left right))
  | .call callee paren arguments => do
    let callee ← evaluate call callee
    let arguments ← evaluateAll call arguments
    call paren callee arguments
  | .get object name => do
    let object ← evaluate call object
    lift (Action.property object name)
  | .grouping inner => evaluate call inner
  | .literal value => pure value.value
  | .logical left operator _ right => do
    let left ← evaluate call left
    if operator.decidedBy left then pure left else evaluate call right
  | .set object name value => do
    match ← evaluate call object with
    | .object identity _ => do
      let value ← evaluate call value
      lift (Action.setField identity name.lexeme value)
      pure value
    | _ => lift (Action.fail name .fieldOfNonObject)
  | .super keyword method => lift (Action.superMethod keyword method)
  | .this keyword => lift (Action.read keyword)
  | .unary operator word right => do
    let right ← evaluate call right
    lift (Action.ofOperator word (operator.apply right))
  | .variable name => lift (Action.read name)

def evaluateAll (call : Caller) : List Expr → Escaping (List Value)
  | [] => pure []
  | expression :: rest => do
    let value ← evaluate call expression
    let values ← evaluateAll call rest
    pure (value :: values)

end

def evaluateOption (call : Caller) : Option Expr → Escaping Value
  | none => pure .nil
  | some expression => evaluate call expression

def test (call : Caller) (condition : Expr) : Escaping Bool := do
  let value ← evaluate call condition
  pure value.isTruthy

mutual

/-- Executes a statement. A return breaks off whatever it stands in. -/
def execute (call : Caller) (rounds : Nat) : Stmt → Escaping Unit
  | .block statements => do
    let frame ← lift (do Action.newFrame (← Action.currentFrame))
    within frame (executeAll call rounds statements)
  | .classDecl name superclass methods => lift (Action.declareClass name superclass methods)
  | .expression inner => do
    let _ ← evaluate call inner
    pure ()
  | .function routine => lift (Action.declareFunction routine)
  | .ifThen condition thenBranch none => do
    if ← test call condition then execute call rounds thenBranch else pure ()
  | .ifThen condition thenBranch (some elseBranch) => do
    if ← test call condition then execute call rounds thenBranch
    else execute call rounds elseBranch
  | .print inner => do
    let value ← evaluate call inner
    lift (Action.print value.text)
  | .returns _ value => do
    let value ← evaluateOption call value
    throw (.returned value)
  | .var name initializer => do
    let value ← evaluateOption call initializer
    lift (Action.define name.lexeme value)
  | .whileLoop condition body =>
    repeatWhile (test call condition) (execute call rounds body) rounds

def executeAll (call : Caller) (rounds : Nat) : List Stmt → Escaping Unit
  | [] => pure ()
  | statement :: rest => do
    execute call rounds statement
    executeAll call rounds rest

end

/-! ## Calls -/

abbrev BodyRunner := List Stmt → Escaping Unit

/-- Calls a routine, which is what catches the returns of its body. -/
def callClosure (run : BodyRunner) (closure : Closure) (arguments : List Value) :
    Escaping Value := do
  let frame ← lift (Action.newFrame closure.frame)
  lift (Action.defineAll frame closure.routine.parameters arguments)
  let value ← catchReturn (within frame (run closure.routine.body))
  if closure.isInitializer then lift (Action.valueIn closure.frame "this") else pure value

def construct (run : BodyRunner) (description : Class) (arguments : List Value) :
    Escaping Value := do
  let object ← lift (Action.newObject description)
  match description.initializer? with
  | some method => do
    let initializer ← lift (Action.bindThis method object)
    let _ ← callClosure run initializer arguments
    pure object
  | none => pure object

def callValue (run : BodyRunner) (callee : Value) (arguments : List Value) :
    Escaping Value :=
  match callee with
  | .native builtIn => lift (Action.answer builtIn.answer arguments)
  | .function _ closure => callClosure run closure arguments
  | .classValue description => construct run description arguments
  | _ => lift (Action.defect .notCallable)

def callWithin (rounds : Nat) : Nat → Caller
  | 0, paren, callee, arguments => do
    lift (Action.checkCall paren callee arguments)
    lift (Action.fail paren .stackOverflow)
  | depth + 1, paren, callee, arguments => do
    lift (Action.checkCall paren callee arguments)
    callValue (executeAll (callWithin rounds depth) rounds) callee arguments

end Escaping

end LoxLang
