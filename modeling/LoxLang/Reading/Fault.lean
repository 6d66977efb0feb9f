import LoxLang.Diagnostic

/-!
# Faults of grammar

The grammar is read with one token of lookahead, so a fault is always noticed at one
token. Nearly every fault is that something else was expected there.
-/

namespace LoxLang

/-- Functions and methods are declared alike and differ in what a fault calls them. -/
inductive RoutineKind where
  | function | method
  deriving DecidableEq, Repr

def RoutineKind.word : RoutineKind → String
  | function => "function"
  | method => "method"

inductive Expectation where
  | expression
  | groupingEnd
  | propertyName
  | argumentsEnd
  | superDot
  | superMethod
  | className
  | superclassName
  | classBody
  | classEnd
  | routineName (kind : RoutineKind)
  | parameters (kind : RoutineKind)
  | parameterName
  | parametersEnd
  | routineBody (kind : RoutineKind)
  | variableName
  | variableEnd
  | blockEnd
  | forClauses
  | forConditionEnd
  | forClausesEnd
  | ifCondition
  | ifConditionEnd
  | whileCondition
  | whileConditionEnd
  | printEnd
  | returnEnd
  | expressionEnd
  deriving DecidableEq, Repr

inductive ReadingCause where
  | expected (expectation : Expectation)
  | invalidTarget
  | tooManyParameters
  | tooManyArguments
  deriving DecidableEq, Repr

def listLimit : Nat := 255

def Expectation.message : Expectation → String
  | expression => "Expect expression."
  | groupingEnd => "Expect ')' after expression."
  | propertyName => "Expect property name after '.'."
  | argumentsEnd => "Expect ')' after arguments."
  | superDot => "Expect '.' after 'super'."
  | superMethod => "Expect superclass method name."
  | className => "Expect class name."
  | superclassName => "Expect superclass name."
  | classBody => "Expect '\x7b' before class body."
  | classEnd => "Expect '\x7d' after class body."
  | routineName kind => "Expect " ++ kind.word ++ " name."
  | parameters kind => "Expect '(' after " ++ kind.word ++ " name."
  | parameterName => "Expect parameter name."
  | parametersEnd => "Expect ')' after parameters."
  | routineBody kind => "Expect '\x7b' before " ++ kind.word ++ " body."
  | variableName => "Expect variable name."
  | variableEnd => "Expect ';' after variable declaration."
  | blockEnd => "Expect '\x7d' after block."
  | forClauses => "Expect '(' after 'for'."
  | forConditionEnd => "Expect ';' after loop condition."
  | forClausesEnd => "Expect ')' after for clauses."
  | ifCondition => "Expect '(' after 'if'."
  | ifConditionEnd => "Expect ')' after if condition."
  | whileCondition => "Expect '(' after 'while'."
  | whileConditionEnd => "Expect ')' after condition."
  | printEnd => "Expect ';' after value."
  | returnEnd => "Expect ';' after return value."
  | expressionEnd => "Expect ';' after expression."

def ReadingCause.message : ReadingCause → String
  | expected expectation => expectation.message
  | invalidTarget => "Invalid assignment target."
  | tooManyParameters => s!"Can't have more than {listLimit} parameters."
  | tooManyArguments => s!"Can't have more than {listLimit} arguments."

structure ReadingFault where
  token : Occurrence
  cause : ReadingCause

def ReadingFault.diagnostic (fault : ReadingFault) : Diagnostic :=
  .atToken fault.token.toToken fault.cause.message

end LoxLang
