import LoxLang.Machine.Evaluation
import LoxLang.Machine.Calls
import LoxLang.Proofs.Lexical.Machine

/-! # Evaluation by lexical scope

Expressions are evaluated in a view. A statement is executed in a view too, and delivers
the view of what stands behind it. A closure keeps the view of the place where it is
declared, and each of its activations extends that view by cells for the parameters. The
view of a method taken from an object has `this`, and `super` if there is a superclass.
-/

namespace LoxLang.Lexical

/-! ## Methods and classes -/

def bindThis (method : Closure View) (this : Value View) : Action (Closure View) := do
  let cell ← newCellWith this
  pure { method with frame := method.frame.extend "this" cell }

def boundMethod (method : Closure View) (this : Value View) : Action (Value View) := do
  let bound ← bindThis method this
  let identity ← newIdentity
  pure (.function identity bound)

def method (description : Class View) (name : Occurrence) (this : Value View) :
    Action (Value View) := do
  match description.findMethod? name.lexeme with
  | some found => boundMethod found this
  | none => Action.fail name (.undefinedProperty name.lexeme)

def property (value : Value View) (name : Occurrence) : Action (Value View) := do
  match value with
  | .object identity description =>
    match ← field? identity name.lexeme with
    | some value => pure value
    | none => method description name value
  | _ => Action.fail name .propertyOfNonObject

def superMethod (view : View) (name : Occurrence) : Action (Value View) :=
  match view.cell? "super", view.cell? "this" with
  | some superCell, some thisCell => do
    let superclass ← valueIn superCell "super"
    let this ← valueIn thisCell "this"
    match superclass with
    | .classValue description => method description name this
    | _ => Action.defect .superNotClass
  | _, _ => Action.defect .superUnbound

def superclass (view : View) : Option Occurrence → Action (Option (Class View))
  | none => pure none
  | some name => do
    match ← read view name with
    | .classValue description => pure (some description)
    | _ => Action.fail name .superclassNotClass

/-- The view of the methods of a class, which has `super` if there is a superclass. -/
def methodView (view : View) : Option (Class View) → Action View
  | none => pure view
  | some description => do
    let cell ← newCellWith (.classValue description)
    pure (view.extend "super" cell)

def declareClass (view : View) (name : Occurrence) (clause : Option Occurrence)
    (methods : List Routine) : Action View := do
  let superclass ← superclass view clause
  let view ← declare name.lexeme view
  define view name.lexeme .nil
  let inner ← methodView view superclass
  let identity ← newIdentity
  define view name.lexeme
    (.classValue ⟨identity, name.lexeme, superclass, Class.methodTable inner methods⟩)
  pure view

def declareFunction (view : View) (routine : Routine) : Action View := do
  let view ← declare routine.name.lexeme view
  let identity ← newIdentity
  define view routine.name.lexeme (.function identity ⟨routine, view, false⟩)
  pure view

/-! ## Expressions and statements -/

abbrev Caller := Occurrence → Value View → List (Value View) → Action (Value View)

mutual

def evaluate (call : Caller) (view : View) : Expr → Action (Value View)
  | .assign name value => do
    let value ← evaluate call view value
    assign view name value
    pure value
  | .binary left operator word right => do
    let left ← evaluate call view left
    let right ← evaluate call view right
    Action.ofOperator word (operator.apply left right)
  | .call callee paren arguments => do
    let callee ← evaluate call view callee
    let arguments ← evaluateAll call view arguments
    call paren callee arguments
  | .get object name => do
    let object ← evaluate call view object
    property object name
  | .grouping inner => evaluate call view inner
  | .literal value => pure value.value
  | .logical left operator _ right => do
    let left ← evaluate call view left
    if operator.decidedBy left then pure left else evaluate call view right
  | .set object name value => do
    match ← evaluate call view object with
    | .object identity _ => do
      let value ← evaluate call view value
      setField identity name.lexeme value
      pure value
    | _ => Action.fail name .fieldOfNonObject
  | .super _ method => superMethod view method
  | .this keyword => read view keyword
  | .unary operator word right => do
    let right ← evaluate call view right
    Action.ofOperator word (operator.apply right)
  | .variable name => read view name

def evaluateAll (call : Caller) (view : View) : List Expr → Action (List (Value View))
  | [] => pure []
  | expression :: rest => do
    let value ← evaluate call view expression
    let values ← evaluateAll call view rest
    pure (value :: values)

end

def evaluateOption (call : Caller) (view : View) : Option Expr → Action (Value View)
  | none => pure .nil
  | some expression => evaluate call view expression

def test (call : Caller) (view : View) (condition : Expr) : Action Bool := do
  let value ← evaluate call view condition
  pure value.isTruthy

mutual

/-- Executes a statement, and delivers the view behind it as well. -/
def execute (call : Caller) (rounds : Nat) (view : View) :
    Stmt → Action (Completion View × View)
  | .block statements => do
    let completion ← executeAll call rounds (.inside view.cells) statements
    pure (completion, view)
  | .classDecl name superclass methods => do
    let view ← declareClass view name superclass methods
    pure (.finished, view)
  | .expression inner => do
    let _ ← evaluate call view inner
    pure (.finished, view)
  | .function routine => do
    let view ← declareFunction view routine
    pure (.finished, view)
  | .ifThen condition thenBranch none => do
    if ← test call view condition then do
      let (completion, _) ← execute call rounds view thenBranch
      pure (completion, view)
    else pure (.finished, view)
  | .ifThen condition thenBranch (some elseBranch) => do
    if ← test call view condition then do
      let (completion, _) ← execute call rounds view thenBranch
      pure (completion, view)
    else do
      let (completion, _) ← execute call rounds view elseBranch
      pure (completion, view)
  | .print inner => do
    let value ← evaluate call view inner
    print value.text
    pure (.finished, view)
  | .returns _ value => do
    let value ← evaluateOption call view value
    pure (.returned value, view)
  | .var name initializer => do
    let view ← declare name.lexeme view
    let value ← evaluateOption call view initializer
    define view name.lexeme value
    pure (.finished, view)
  | .whileLoop condition body => do
    let completion ← Action.repeatWhile (test call view condition)
      ((·.1) <$> execute call rounds view body) rounds
    pure (completion, view)

def executeAll (call : Caller) (rounds : Nat) (view : View) :
    List Stmt → Action (Completion View)
  | [] => pure .finished
  | statement :: rest => do
    match ← execute call rounds view statement with
    | (.finished, view) => executeAll call rounds view rest
    | (.returned value, _) => pure (.returned value)

end

/-! ## Calls -/

abbrev BodyRunner := View → List Stmt → Action (Completion View)

def answer (answer : NativeAnswer) (arguments : List (Value View)) :
    Action (Value View) := do
  match answer with
  | .clock => .number <$> readClock
  | .constant value => pure value.value
  | .argument index =>
    match arguments[index]? with
    | some value => pure value
    | none => Action.defect .argumentMissing
  | .computed compute =>
    match compute (arguments.map Value.literal?) with
    | some value => pure value.value
    | none => Action.defect .argumentMissing

/-- The view with a new cell for each parameter, which has the value of the argument. -/
def bindParameters : View → List Occurrence → List (Value View) → Action View
  | view, name :: names, value :: values => do
    let cell ← newCellWith value
    bindParameters (view.extend name.lexeme cell) names values
  | view, _, _ => pure view

def callClosure (run : BodyRunner) (closure : Closure View)
    (arguments : List (Value View)) : Action (Value View) := do
  let view ← bindParameters (.inside closure.frame.cells) closure.routine.parameters
    arguments
  let completion ← run view closure.routine.body
  if closure.isInitializer then
    match closure.frame.cell? "this" with
    | some cell => valueIn cell "this"
    | none => Action.defect (.nameMissing "this")
  else pure completion.value

def construct (run : BodyRunner) (description : Class View)
    (arguments : List (Value View)) : Action (Value View) := do
  let object ← newObject description
  match description.initializer? with
  | some method => do
    let initializer ← bindThis method object
    let _ ← callClosure run initializer arguments
    pure object
  | none => pure object

def callValue (run : BodyRunner) (callee : Value View) (arguments : List (Value View)) :
    Action (Value View) :=
  match callee with
  | .native builtIn => answer builtIn.answer arguments
  | .function _ closure => callClosure run closure arguments
  | .classValue description => construct run description arguments
  | _ => Action.defect .notCallable

def callWithin (rounds : Nat) : Nat → Caller
  | 0, paren, callee, arguments => do
    Action.checkCall paren callee arguments
    Action.fail paren .stackOverflow
  | depth + 1, paren, callee, arguments => do
    Action.checkCall paren callee arguments
    callValue (executeAll (callWithin rounds depth) rounds) callee arguments

end LoxLang.Lexical
