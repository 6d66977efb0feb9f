import LoxLang.Binding.Scope
import LoxLang.Diagnostic
import LoxLang.Tree.Basic

/-!
# What names are bound to

Before a program runs, every reference is bound to the scope that declares its name, and
uses of names that can never make sense are found. Both come out as findings, in the order
of the walk. The walk follows the text, so that a name declared later in a scope is not
yet known to what stands before it.
-/

namespace LoxLang

inductive BindingCause where
  | alreadyDeclared
  | ownInitializer
  | topLevelReturn
  | initializerReturn
  | thisOutsideClass
  | superOutsideClass
  | superWithoutSuperclass
  | selfInheritance
  deriving DecidableEq, Repr

def BindingCause.message : BindingCause → String
  | alreadyDeclared => "Already a variable with this name in this scope."
  | ownInitializer => "Can't read local variable in its own initializer."
  | topLevelReturn => "Can't return from top-level code."
  | initializerReturn => "Can't return a value from an initializer."
  | thisOutsideClass => "Can't use 'this' outside of a class."
  | superOutsideClass => "Can't use 'super' outside of a class."
  | superWithoutSuperclass => "Can't use 'super' in a class with no superclass."
  | selfInheritance => "A class can't inherit from itself."

structure BindingFault where
  token : Occurrence
  cause : BindingCause

def BindingFault.diagnostic (fault : BindingFault) : Diagnostic :=
  .atToken fault.token.toToken fault.cause.message

/-- What the walk finds at one place. -/
inductive Finding where
  | bound (reference : Occurrence) (distance : Nat)
  | fault (fault : BindingFault)

inductive EnclosingRoutine where
  | none | function | method | initializer
  deriving DecidableEq, Repr

inductive EnclosingClass where
  | none | plain | derived
  deriving DecidableEq, Repr

structure Surroundings where
  routine : EnclosingRoutine
  enclosingClass : EnclosingClass

namespace Surroundings

def topLevel : Surroundings := ⟨.none, .none⟩

end Surroundings

namespace Finding

def ofFault (token : Occurrence) (cause : BindingCause) : Finding := .fault ⟨token, cause⟩

def faultIf (condition : Bool) (token : Occurrence) (cause : BindingCause) :
    List Finding :=
  if condition then [ofFault token cause] else []

/-- A reference to the nearest scope with its name. A name in no scope is global. -/
def reference (scopes : Scopes) (name : Occurrence) : List Finding :=
  match scopes.distance? name.lexeme with
  | some distance => [.bound name distance]
  | none => []

def variableUse (scopes : Scopes) (name : Occurrence) : List Finding :=
  faultIf (scopes.incompleteHere name.lexeme) name .ownInitializer ++
    reference scopes name

def redeclaration (scopes : Scopes) (name : Occurrence) : List Finding :=
  faultIf (scopes.declaredHere name.lexeme) name .alreadyDeclared

def parameters (scopes : Scopes) : List Occurrence → List Finding
  | [] => []
  | name :: rest =>
    redeclaration scopes name ++ parameters (scopes.define name.lexeme) rest

end Finding

/-- A use of `super`, which is looked up whether it makes sense or not. -/
def Surroundings.superUse (surroundings : Surroundings) (scopes : Scopes)
    (keyword : Occurrence) : List Finding :=
  (match surroundings.enclosingClass with
    | .none => [.ofFault keyword .superOutsideClass]
    | .plain => [.ofFault keyword .superWithoutSuperclass]
    | .derived => []) ++ Finding.reference scopes keyword

/-- A use of `this`, which is looked up only inside a class. -/
def Surroundings.thisUse (surroundings : Surroundings) (scopes : Scopes)
    (keyword : Occurrence) : List Finding :=
  if surroundings.enclosingClass = .none then [.ofFault keyword .thisOutsideClass]
  else Finding.reference scopes keyword

def Surroundings.returnUse (surroundings : Surroundings) (keyword : Occurrence)
    (withValue : Bool) : List Finding :=
  Finding.faultIf (surroundings.routine = .none) keyword .topLevelReturn ++
    Finding.faultIf (withValue && surroundings.routine = .initializer) keyword
      .initializerReturn

mutual

def Expr.findings (surroundings : Surroundings) (scopes : Scopes) : Expr → List Finding
  | .assign name value =>
    value.findings surroundings scopes ++ Finding.reference scopes name
  | .binary left _ _ right =>
    left.findings surroundings scopes ++ right.findings surroundings scopes
  | .call callee _ arguments =>
    callee.findings surroundings scopes ++
      Expr.findingsOfAll surroundings scopes arguments
  | .get object _ => object.findings surroundings scopes
  | .grouping inner => inner.findings surroundings scopes
  | .literal _ => []
  | .logical left _ _ right =>
    left.findings surroundings scopes ++ right.findings surroundings scopes
  | .set object _ value =>
    value.findings surroundings scopes ++ object.findings surroundings scopes
  | .super keyword _ => surroundings.superUse scopes keyword
  | .this keyword => surroundings.thisUse scopes keyword
  | .unary _ _ right => right.findings surroundings scopes
  | .variable name => Finding.variableUse scopes name

def Expr.findingsOfAll (surroundings : Surroundings) (scopes : Scopes) :
    List Expr → List Finding
  | [] => []
  | expression :: rest =>
    expression.findings surroundings scopes ++ Expr.findingsOfAll surroundings scopes rest

end

def Expr.findingsOfOption (surroundings : Surroundings) (scopes : Scopes) :
    Option Expr → List Finding
  | none => []
  | some expression => expression.findings surroundings scopes

def Stmt.declared? : Stmt → Option Occurrence
  | .classDecl name _ _ => some name
  | .function routine => some routine.name
  | .var name _ => some name
  | _ => none

def Stmt.scopesAfter (scopes : Scopes) (statement : Stmt) : Scopes :=
  match statement.declared? with
  | some name => scopes.define name.lexeme
  | none => scopes

/-- The surroundings of a routine's body: a method called `init` is an initializer. -/
def Surroundings.insideMethod (surroundings : Surroundings) (method : Routine) :
    Surroundings :=
  { surroundings with routine := if method.isNamedInit then .initializer else .method }

def Scopes.insideClass (scopes : Scopes) (superclass : Option Occurrence) : Scopes :=
  match superclass with
  | none => scopes.nest ["this"]
  | some _ => (scopes.nest ["super"]).nest ["this"]

def Finding.superclass (scopes : Scopes) (name : Occurrence) :
    Option Occurrence → List Finding
  | none => []
  | some superclass =>
    Finding.faultIf (name.lexeme = superclass.lexeme) superclass .selfInheritance ++
      Finding.variableUse scopes superclass

def Surroundings.insideClass (surroundings : Surroundings)
    (superclass : Option Occurrence) : Surroundings :=
  { surroundings with enclosingClass := if superclass.isSome then .derived else .plain }

mutual

def Stmt.findings (surroundings : Surroundings) (scopes : Scopes) : Stmt → List Finding
  | .block statements => Stmt.findingsOfAll surroundings (scopes.nest []) statements
  | .classDecl name superclass methods =>
    Finding.redeclaration scopes name ++
      Finding.superclass (scopes.define name.lexeme) name superclass ++
      Routine.findingsOfMethods (surroundings.insideClass superclass)
        ((scopes.define name.lexeme).insideClass superclass) methods
  | .expression inner => inner.findings surroundings scopes
  | .function routine =>
    Finding.redeclaration scopes routine.name ++
      routine.findings { surroundings with routine := .function }
        (scopes.define routine.name.lexeme)
  | .ifThen condition thenBranch none =>
    condition.findings surroundings scopes ++ thenBranch.findings surroundings scopes
  | .ifThen condition thenBranch (some elseBranch) =>
    condition.findings surroundings scopes ++ thenBranch.findings surroundings scopes ++
      elseBranch.findings surroundings scopes
  | .print inner => inner.findings surroundings scopes
  | .returns keyword value =>
    surroundings.returnUse keyword value.isSome ++
      Expr.findingsOfOption surroundings scopes value
  | .var name initializer =>
    Finding.redeclaration scopes name ++
      Expr.findingsOfOption surroundings (scopes.declare name.lexeme) initializer
  | .whileLoop condition body =>
    condition.findings surroundings scopes ++ body.findings surroundings scopes

/-- The findings in the parameters and the body of a routine, which share one scope. -/
def Routine.findings (surroundings : Surroundings) (scopes : Scopes) :
    Routine → List Finding
  | .mk _ parameters body =>
    Finding.parameters (scopes.nest []) parameters ++
      Stmt.findingsOfAll surroundings (scopes.nest (parameters.map (·.lexeme))) body

def Stmt.findingsOfAll (surroundings : Surroundings) (scopes : Scopes) :
    List Stmt → List Finding
  | [] => []
  | statement :: rest =>
    statement.findings surroundings scopes ++
      Stmt.findingsOfAll surroundings (statement.scopesAfter scopes) rest

def Routine.findingsOfMethods (surroundings : Surroundings) (scopes : Scopes) :
    List Routine → List Finding
  | [] => []
  | method :: rest =>
    method.findings (surroundings.insideMethod method) scopes ++
      Routine.findingsOfMethods surroundings scopes rest

end

def findingsOfProgram (statements : List Stmt) : List Finding :=
  Stmt.findingsOfAll .topLevel [] statements

namespace Finding

def fault? : Finding → Option BindingFault
  | .fault found => some found
  | .bound _ _ => none

def faults (findings : List Finding) : List BindingFault := findings.filterMap fault?

end Finding

end LoxLang
