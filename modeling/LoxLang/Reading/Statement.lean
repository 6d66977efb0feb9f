import LoxLang.Reading.Expression

/-!
# Reading statements

A program is read declaration by declaration. A declaration that does not fit the grammar
is abandoned at its first fault and left out, and reading goes on at the next place where
a declaration may start, so that one fault does not hide the others.
-/

namespace LoxLang

/-- A loop with clauses is a loop inside the scope of its initializer, whose body runs
before the increment. A condition left out always holds. -/
def Stmt.forLoop (initializer : Option Stmt) (condition increment : Option Expr)
    (body : Stmt) : Stmt :=
  let body := match increment with
    | some increment => .block [body, .expression increment]
    | none => body
  let loop := .whileLoop (condition.getD (.literal (.bool true))) body
  match initializer with
  | some initializer => .block [initializer, loop]
  | none => loop

namespace Reader

def expressionUnless (kind : Kind) (depth : Nat) : Reader (Option Expr) := do
  if ← follows kind then pure none
  else some <$> expression depth

def expressionStatement (depth : Nat) : Reader Stmt := do
  let expression ← expression depth
  let _ ← expect Symbol.semicolon .expressionEnd
  pure (.expression expression)

def printStatement (depth : Nat) : Reader Stmt := do
  let expression ← expression depth
  let _ ← expect Symbol.semicolon .printEnd
  pure (.print expression)

def returnStatement (keyword : Occurrence) (depth : Nat) : Reader Stmt := do
  let value ← expressionUnless Symbol.semicolon depth
  let _ ← expect Symbol.semicolon .returnEnd
  pure (.returns keyword value)

def varDeclaration (depth : Nat) : Reader Stmt := do
  let name ← expect .identifier .variableName
  let initializer ← match ← accept Symbol.equal with
    | some _ => some <$> expression depth
    | none => pure none
  let _ ← expect Symbol.semicolon .variableEnd
  pure (.var name initializer)

def moreParameters : Nat → Nat → Reader (List Occurrence)
  | 0, _ => tooDeep
  | depth + 1, count => do
    match ← accept Symbol.comma with
    | none => pure []
    | some _ => do
      if listLimit ≤ count then complain (← next) .tooManyParameters
      let parameter ← expect .identifier .parameterName
      let others ← moreParameters depth (count + 1)
      pure (parameter :: others)

def parameters (depth : Nat) : Reader (List Occurrence) := do
  if ← follows Symbol.rightParen then pure []
  else do
    let first ← expect .identifier .parameterName
    let others ← moreParameters depth 1
    pure (first :: others)

def superclass : Reader (Option Occurrence) := do
  match ← accept Symbol.less with
  | some _ => some <$> expect .identifier .superclassName
  | none => pure none

/-- Where a list of declarations ends: at the end of input, or before a closing brace
already. -/
inductive Extent where
  | wholeInput | block

def ended : Extent → Reader Bool
  | .wholeInput => atEnd
  | .block => do
    let atBrace ← follows Symbol.rightBrace
    let atEnd ← atEnd
    pure (atBrace || atEnd)

def forInitializer (depth : Nat) : Reader (Option Stmt) := do
  match (← next).kind with
  | .symbol .semicolon => do skip; pure none
  | .keyword .varWord => do skip; some <$> varDeclaration depth
  | _ => some <$> expressionStatement depth

mutual

/-- The declarations up to the end of the extent, without the abandoned ones. -/
def declarations : Nat → Extent → Reader (List Stmt)
  | 0, _ => tooDeep
  | depth + 1, extent => do
    if ← ended extent then pure []
    else do
      let first ← declaration depth
      let others ← declarations depth extent
      pure (first.toList ++ others)

/-- One declaration, or nothing if it had to be abandoned. -/
def declaration : Nat → Reader (Option Stmt)
  | 0 => tooDeep
  | depth + 1 =>
    tryCatch (some <$> wholeDeclaration depth) fun
      | .abandoned => do
        resume
        pure none
      | interruption => throw interruption

def wholeDeclaration : Nat → Reader Stmt
  | 0 => tooDeep
  | depth + 1 => do
    match (← next).kind with
    | .keyword .classWord => do skip; classDeclaration depth
    | .keyword .funWord => do skip; .function <$> routine depth .function
    | .keyword .varWord => do skip; varDeclaration depth
    | _ => statement depth

def classDeclaration : Nat → Reader Stmt
  | 0 => tooDeep
  | depth + 1 => do
    let name ← expect .identifier .className
    let superclass ← superclass
    let _ ← expect Symbol.leftBrace .classBody
    let methods ← methods depth
    let _ ← expect Symbol.rightBrace .classEnd
    pure (.classDecl name superclass methods)

def methods : Nat → Reader (List Routine)
  | 0 => tooDeep
  | depth + 1 => do
    if ← ended .block then pure []
    else do
      let first ← routine depth .method
      let others ← methods depth
      pure (first :: others)

def routine : Nat → RoutineKind → Reader Routine
  | 0, _ => tooDeep
  | depth + 1, kind => do
    let name ← expect .identifier (.routineName kind)
    let _ ← expect Symbol.leftParen (.parameters kind)
    let parameters ← parameters depth
    let _ ← expect Symbol.rightParen .parametersEnd
    let _ ← expect Symbol.leftBrace (.routineBody kind)
    let body ← block depth
    pure (.mk name parameters body)

def block : Nat → Reader (List Stmt)
  | 0 => tooDeep
  | depth + 1 => do
    let statements ← declarations depth .block
    let _ ← expect Symbol.rightBrace .blockEnd
    pure statements

def statement : Nat → Reader Stmt
  | 0 => tooDeep
  | depth + 1 => do
    let word ← next
    match word.kind with
    | .keyword .forWord => do skip; forStatement depth
    | .keyword .ifWord => do skip; ifStatement depth
    | .keyword .printWord => do skip; printStatement depth
    | .keyword .returnWord => do skip; returnStatement word depth
    | .keyword .whileWord => do skip; whileStatement depth
    | .symbol .leftBrace => do skip; .block <$> block depth
    | _ => expressionStatement depth

def forStatement : Nat → Reader Stmt
  | 0 => tooDeep
  | depth + 1 => do
    let _ ← expect Symbol.leftParen .forClauses
    let initializer ← forInitializer depth
    let condition ← expressionUnless Symbol.semicolon depth
    let _ ← expect Symbol.semicolon .forConditionEnd
    let increment ← expressionUnless Symbol.rightParen depth
    let _ ← expect Symbol.rightParen .forClausesEnd
    let body ← statement depth
    pure (.forLoop initializer condition increment body)

def ifStatement : Nat → Reader Stmt
  | 0 => tooDeep
  | depth + 1 => do
    let _ ← expect Symbol.leftParen .ifCondition
    let condition ← expression depth
    let _ ← expect Symbol.rightParen .ifConditionEnd
    let thenBranch ← statement depth
    let elseBranch ← match ← accept Keyword.elseWord with
      | some _ => some <$> statement depth
      | none => pure none
    pure (.ifThen condition thenBranch elseBranch)

def whileStatement : Nat → Reader Stmt
  | 0 => tooDeep
  | depth + 1 => do
    let _ ← expect Symbol.leftParen .whileCondition
    let condition ← expression depth
    let _ ← expect Symbol.rightParen .whileConditionEnd
    let body ← statement depth
    pure (.whileLoop condition body)

end

end Reader

/-- What reading a token list came to: the declarations that fit the grammar, and the
faults in the order in which they were noticed. -/
structure Parsed where
  statements : List Stmt
  faults : List ReadingFault

def Stream.parse (stream : Stream) : Except Interruption Parsed :=
  match Reader.declarations stream.descent .wholeInput stream with
  | .ok statements after => .ok ⟨statements, after.faults.toList⟩
  | .error interruption _ => .error interruption

def Parsed.ofTokens (tokens : List Occurrence) : Except Interruption Parsed :=
  Stream.parse ⟨tokens, #[]⟩

def Parsed.ofTokens? (tokens : List Occurrence) : Option Parsed :=
  (Parsed.ofTokens tokens).toOption

end LoxLang
