import LoxLang.Machine.Evaluation

/-!
# Calls

Calling a function binds its parameters in a new frame and executes its body there.
Calling a class makes an object and calls the initializer on it. At most so many calls may
be active at once as a budget allows; the first call beyond them is an error at its
closing parenthesis.
-/

namespace LoxLang

abbrev BodyRunner := List Stmt → Action Completion

namespace Action

def answer (answer : NativeAnswer) (arguments : List Value) : Action Value := do
  match answer with
  | .clock => .number <$> readClock
  | .constant value => pure value.value
  | .argument index =>
    match arguments[index]? with
    | some value => pure value
    | none => defect .argumentMissing
  | .computed compute =>
    match compute (arguments.map Value.literal?) with
    | some value => pure value.value
    | none => defect .argumentMissing

/-- Calls a routine. An initializer delivers its object, any other routine what its body
returns, and `nil` if it returns nothing. -/
def callClosure (run : BodyRunner) (closure : Closure) (arguments : List Value) :
    Action Value := do
  let frame ← newFrame closure.frame
  defineAll frame closure.routine.parameters arguments
  let completion ← within frame (run closure.routine.body)
  if closure.isInitializer then valueIn closure.frame "this" else pure completion.value

def construct (run : BodyRunner) (description : Class) (arguments : List Value) :
    Action Value := do
  let object ← newObject description
  match description.initializer? with
  | some method => do
    let initializer ← bindThis method object
    let _ ← callClosure run initializer arguments
    pure object
  | none => pure object

def callValue (run : BodyRunner) (callee : Value) (arguments : List Value) :
    Action Value :=
  match callee with
  | .native builtIn => answer builtIn.answer arguments
  | .function _ closure => callClosure run closure arguments
  | .classValue description => construct run description arguments
  | _ => defect .notCallable

end Action

/-- Calls with at most `depth` calls active at once, and at most `rounds` rounds in a
loop. -/
def callWithin (rounds : Nat) : Nat → Caller
  | 0, paren, callee, arguments => do
    Action.checkCall paren callee arguments
    Action.fail paren .stackOverflow
  | depth + 1, paren, callee, arguments => do
    Action.checkCall paren callee arguments
    Action.callValue (Stmt.executeAll (callWithin rounds depth) rounds) callee arguments

structure Budget where
  /-- How many calls may be active at once. -/
  depth : Nat
  /-- How many rounds a single loop may take. -/
  rounds : Nat

namespace Budget

def caller (budget : Budget) : Caller := callWithin budget.rounds budget.depth

def runner (budget : Budget) : BodyRunner := Stmt.executeAll budget.caller budget.rounds

/-- More rounds than any loop takes that ends, and a depth that leaves room for the
machine's own stack. -/
def standard : Budget := ⟨1200, Nat.pow 2 60⟩

end Budget

end LoxLang
