import LoxLang.Proofs.Grammar.Expression

/-! # The grammar of statements

The productions of declarations and statements. They are ambiguous in one place: an `else`
may belong to any `if` before it that has none yet. Of the derivations of one token list,
those in which every `else` belongs to the nearest such `if` are singled out by an
`ElseRule`.
-/

namespace LoxLang.Grammar

/-- Which `if` an `else` may belong to. -/
inductive ElseRule where
  | anyIf
  | nearestIf

/-- The phrases that contain statements. A statement is open if an `else` behind it could
belong to an `if` inside it. -/
inductive StatementPhrase where
  | declarations
  | declaration
  | statement (isOpen : Bool)
  | routine
  | methods
  | block

@[reducible] def StatementPhrase.Tree : StatementPhrase → Type
  | declarations | block => List Stmt
  | declaration | statement _ => Stmt
  | routine => Routine
  | methods => List Routine

/-- `expression?` -/
inductive OptionalExpression : List Occurrence → Option Expr → Prop
  | absent : OptionalExpression [] none
  | present {tokens : List Occurrence} {tree : Expr}
      (phrase : Expression .expression tokens tree) :
        OptionalExpression tokens (some tree)

/-- `exprStmt → expression ";"` -/
inductive ExpressionStatement : List Occurrence → Stmt → Prop
  | mk {semicolon : Occurrence} {tokens : List Occurrence} {tree : Expr}
      (phrase : Expression .expression tokens tree)
      (semicolonKind : semicolon.kind = Symbol.semicolon) :
      ExpressionStatement (tokens ++ [semicolon]) (.expression tree)

/-- `( "=" expression )?` -/
inductive InitializerClause : List Occurrence → Option Expr → Prop
  | absent : InitializerClause [] none
  | present {equal : Occurrence} {tokens : List Occurrence} {tree : Expr}
      (equalKind : equal.kind = Symbol.equal)
        (phrase : Expression .expression tokens tree) :
      InitializerClause (equal :: tokens) (some tree)

/-- `varDecl → "var" IDENTIFIER ( "=" expression )? ";"` -/
inductive VarDeclaration : List Occurrence → Stmt → Prop
  | mk {word name semicolon : Occurrence} {tokens : List Occurrence}
      {initializer : Option Expr}
      (wordKind : word.kind = Keyword.varWord) (nameKind : name.kind = .identifier)
      (initializerPhrase : InitializerClause tokens initializer)
      (semicolonKind : semicolon.kind = Symbol.semicolon) :
      VarDeclaration (word :: name :: (tokens ++ [semicolon])) (.var name initializer)

/-- `( "<" IDENTIFIER )?` -/
inductive SuperclassClause : List Occurrence → Option Occurrence → Prop
  | absent : SuperclassClause [] none
  | present {less name : Occurrence} (lessKind : less.kind = Symbol.less)
      (nameKind : name.kind = .identifier) : SuperclassClause [less, name] (some name)

/-- `( "," IDENTIFIER )*` -/
inductive FurtherParameters : List Occurrence → List Occurrence → Prop
  | none : FurtherParameters [] []
  | more {comma name : Occurrence} {tokens names : List Occurrence}
      (commaKind : comma.kind = Symbol.comma) (nameKind : name.kind = .identifier)
      (others : FurtherParameters tokens names) :
      FurtherParameters (comma :: name :: tokens) (name :: names)

/-- `parameters?`, where `parameters → IDENTIFIER ( "," IDENTIFIER )*` -/
inductive Parameters : List Occurrence → List Occurrence → Prop
  | none : Parameters [] []
  | some {name : Occurrence} {tokens names : List Occurrence}
      (nameKind : name.kind = .identifier)
      (others : FurtherParameters tokens names) :
        Parameters (name :: tokens) (name :: names)

/-- `varDecl | exprStmt | ";"` -/
inductive ForInitializer : List Occurrence → Option Stmt → Prop
  | absent {semicolon : Occurrence} (kind : semicolon.kind = Symbol.semicolon) :
      ForInitializer [semicolon] none
  | declaration {tokens : List Occurrence} {tree : Stmt}
      (phrase : VarDeclaration tokens tree) :
      ForInitializer tokens (some tree)
  | expression {tokens : List Occurrence} {tree : Stmt}
      (phrase : ExpressionStatement tokens tree) : ForInitializer tokens (some tree)

def repeatedByFor (body : Stmt) : Option Expr → Stmt
  | none => body
  | some increment => .block [body, .expression increment]

/-- The tree of a `for` loop. A missing condition is `true`; an initializer has a scope
around the loop. -/
def forTree (condition increment : Option Expr) (body : Stmt) : Option Stmt → Stmt
  | none => .whileLoop (condition.getD (.literal (.bool true)))
      (repeatedByFor body increment)
  | some initializer =>
      .block [initializer,
        .whileLoop (condition.getD (.literal (.bool true)))
          (repeatedByFor body increment)]

/-- `Statement rule phrase tokens tree`: the tokens are a phrase of the grammar, and stand
for the tree. -/
inductive Statement (rule : ElseRule) :
    (phrase : StatementPhrase) → List Occurrence → phrase.Tree → Prop
  | noDeclarations : Statement rule .declarations [] []
  -- `declaration*`
  | moreDeclarations {tokens others : List Occurrence} {tree : Stmt} {trees : List Stmt}
      (first : Statement rule .declaration tokens tree)
      (rest : Statement rule .declarations others trees) :
      Statement rule .declarations (tokens ++ others) (tree :: trees)
  -- `classDecl → "class" IDENTIFIER ( "<" IDENTIFIER )? "{" function* "}"`
  | classDeclaration {word name leftBrace rightBrace : Occurrence}
      {clause tokens : List Occurrence} {superclass : Option Occurrence}
      {methods : List Routine} (wordKind : word.kind = Keyword.classWord)
      (nameKind : name.kind = .identifier)
      (superclassPhrase : SuperclassClause clause superclass)
      (leftBraceKind : leftBrace.kind = Symbol.leftBrace)
      (methodsPhrase : Statement rule .methods tokens methods)
      (rightBraceKind : rightBrace.kind = Symbol.rightBrace) :
      Statement rule .declaration
        (word :: name :: (clause ++ leftBrace :: (tokens ++ [rightBrace])))
        (.classDecl name superclass methods)
  -- `funDecl → "fun" function`
  | functionDeclaration {word : Occurrence} {tokens : List Occurrence} {routine : Routine}
      (wordKind : word.kind = Keyword.funWord)
      (routinePhrase : Statement rule .routine tokens routine) :
      Statement rule .declaration (word :: tokens) (.function routine)
  | varDeclaration {tokens : List Occurrence} {tree : Stmt}
      (phrase : VarDeclaration tokens tree) :
      Statement rule .declaration tokens tree
  | statement {isOpen : Bool} {tokens : List Occurrence} {tree : Stmt}
      (phrase : Statement rule (.statement isOpen) tokens tree) :
      Statement rule .declaration tokens tree
  | noMethods : Statement rule .methods [] []
  -- `function*`
  | moreMethods {tokens others : List Occurrence} {method : Routine}
      {methods : List Routine} (first : Statement rule .routine tokens method)
      (rest : Statement rule .methods others methods) :
      Statement rule .methods (tokens ++ others) (method :: methods)
  -- `function → IDENTIFIER "(" parameters? ")" block`
  | routine {name leftParen rightParen : Occurrence}
      {parameterTokens parameters tokens : List Occurrence} {body : List Stmt}
      (nameKind : name.kind = .identifier)
        (leftParenKind : leftParen.kind = Symbol.leftParen)
      (parametersPhrase : Parameters parameterTokens parameters)
      (parametersBound : parameters.length ≤ 255)
      (rightParenKind : rightParen.kind = Symbol.rightParen)
      (bodyPhrase : Statement rule .block tokens body) :
      Statement rule .routine (name :: leftParen ::
        (parameterTokens ++ rightParen :: tokens))
        (.mk name parameters body)
  -- `block → "{" declaration* "}"`
  | block {leftBrace rightBrace : Occurrence} {tokens : List Occurrence}
      {statements : List Stmt} (leftBraceKind : leftBrace.kind = Symbol.leftBrace)
      (statementsPhrase : Statement rule .declarations tokens statements)
      (rightBraceKind : rightBrace.kind = Symbol.rightBrace) :
      Statement rule .block (leftBrace :: (tokens ++ [rightBrace])) statements
  | expressionStatement {tokens : List Occurrence} {tree : Stmt}
      (phrase : ExpressionStatement tokens tree) :
        Statement rule (.statement false) tokens tree
  | blockStatement {tokens : List Occurrence} {statements : List Stmt}
      (phrase : Statement rule .block tokens statements) :
      Statement rule (.statement false) tokens (.block statements)
  -- `printStmt → "print" expression ";"`
  | printStatement {word semicolon : Occurrence} {tokens : List Occurrence} {value : Expr}
      (wordKind : word.kind = Keyword.printWord)
      (valuePhrase : Expression .expression tokens value)
      (semicolonKind : semicolon.kind = Symbol.semicolon) :
      Statement rule (.statement false) (word :: (tokens ++ [semicolon])) (.print value)
  -- `returnStmt → "return" expression? ";"`
  | returnStatement {word semicolon : Occurrence} {tokens : List Occurrence}
      {value : Option Expr} (wordKind : word.kind = Keyword.returnWord)
      (valuePhrase : OptionalExpression tokens value)
      (semicolonKind : semicolon.kind = Symbol.semicolon) :
      Statement rule (.statement false) (word :: (tokens ++ [semicolon]))
        (.returns word value)
  -- `whileStmt → "while" "(" expression ")" statement`
  | whileStatement {word leftParen rightParen : Occurrence} {isOpen : Bool}
      {conditionTokens tokens : List Occurrence} {condition : Expr} {body : Stmt}
      (wordKind : word.kind = Keyword.whileWord)
      (leftParenKind : leftParen.kind = Symbol.leftParen)
      (conditionPhrase : Expression .expression conditionTokens condition)
      (rightParenKind : rightParen.kind = Symbol.rightParen)
      (bodyPhrase : Statement rule (.statement isOpen) tokens body) :
      Statement rule (.statement isOpen)
        (word :: leftParen :: (conditionTokens ++ rightParen :: tokens))
        (.whileLoop condition body)
  -- `forStmt → "for" "(" ( varDecl | exprStmt | ";" ) expression? ";" expression? ")"
  -- statement`
  | forStatement {word leftParen semicolon rightParen : Occurrence} {isOpen : Bool}
      {initializerTokens conditionTokens incrementTokens tokens : List Occurrence}
      {initializer : Option Stmt} {condition increment : Option Expr} {body : Stmt}
      (wordKind : word.kind = Keyword.forWord)
      (leftParenKind : leftParen.kind = Symbol.leftParen)
      (initializerPhrase : ForInitializer initializerTokens initializer)
      (conditionPhrase : OptionalExpression conditionTokens condition)
      (semicolonKind : semicolon.kind = Symbol.semicolon)
      (incrementPhrase : OptionalExpression incrementTokens increment)
      (rightParenKind : rightParen.kind = Symbol.rightParen)
      (bodyPhrase : Statement rule (.statement isOpen) tokens body) :
      Statement rule (.statement isOpen)
        (word :: leftParen :: (initializerTokens ++ (conditionTokens ++
          semicolon :: (incrementTokens ++ rightParen :: tokens))))
        (forTree condition increment body initializer)
  -- `ifStmt → "if" "(" expression ")" statement`
  | ifStatement {word leftParen rightParen : Occurrence} {isOpen : Bool}
      {conditionTokens tokens : List Occurrence} {condition : Expr} {thenBranch : Stmt}
      (wordKind : word.kind = Keyword.ifWord)
      (leftParenKind : leftParen.kind = Symbol.leftParen)
      (conditionPhrase : Expression .expression conditionTokens condition)
      (rightParenKind : rightParen.kind = Symbol.rightParen)
      (thenPhrase : Statement rule (.statement isOpen) tokens thenBranch) :
      Statement rule (.statement true)
        (word :: leftParen :: (conditionTokens ++ rightParen :: tokens))
        (.ifThen condition thenBranch none)
  -- `ifStmt → "if" "(" expression ")" statement "else" statement`
  | ifElseStatement {word leftParen rightParen elseWord : Occurrence}
      {thenOpen isOpen : Bool}
      {conditionTokens thenTokens tokens : List Occurrence} {condition : Expr}
      {thenBranch elseBranch : Stmt} (wordKind : word.kind = Keyword.ifWord)
      (leftParenKind : leftParen.kind = Symbol.leftParen)
      (conditionPhrase : Expression .expression conditionTokens condition)
      (rightParenKind : rightParen.kind = Symbol.rightParen)
      (thenPhrase : Statement rule (.statement thenOpen) thenTokens thenBranch)
      (nearest : rule = .nearestIf → thenOpen = false)
      (elseKind : elseWord.kind = Keyword.elseWord)
      (elsePhrase : Statement rule (.statement isOpen) tokens elseBranch) :
      Statement rule (.statement isOpen)
        (word :: leftParen :: (conditionTokens ++
          rightParen :: (thenTokens ++ elseWord :: tokens)))
        (.ifThen condition thenBranch (some elseBranch))

theorem Statement.append {rule : ElseRule} {tokens others : List Occurrence}
    {trees : List Stmt} (first : Statement rule .declarations tokens trees)
    {further : List Stmt} (second : Statement rule .declarations others further) :
    Statement rule .declarations (tokens ++ others) (trees ++ further) := by
  induction trees generalizing tokens with
  | nil =>
      cases first
      exact second
  | cons tree trees induction =>
      cases first with
      | moreDeclarations one rest =>
          rw [List.append_assoc]
          exact .moreDeclarations one (induction rest)

end LoxLang.Grammar
