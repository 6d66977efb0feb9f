import LoxLang.Binding.Finding
import LoxLang.Proofs.Grammar.Statement

/-! # Trees that the grammar can give

What is common to all trees of derivations from well spelled words: only `this` and
`super` refer to what classes bind, and no branch and no loop body is a declaration.
-/

namespace LoxLang

/-- Words that only classes bind. -/
def reservedNames : List String := ["this", "super"]

structure Token.Spelled (token : Token) : Prop where
  keyword : ∀ word, token.kind = .keyword word → token.lexeme = word.spelling
  identifier : token.kind = .identifier → ∀ word : Keyword, token.lexeme ≠ word.spelling

theorem Token.Spelled.unreserved {token : Token} (spelled : token.Spelled)
    (kind : token.kind = .identifier) : token.lexeme ∉ reservedNames := by
  have this := spelled.identifier kind .thisWord
  have super := spelled.identifier kind .superWord
  simpa [reservedNames] using ⟨this, super⟩

/-! ## Regular trees -/

mutual

/-- Only `this` and `super` are words that classes bind. -/
def Expr.Regular : Expr → Prop
  | .assign name value => name.lexeme ∉ reservedNames ∧ value.Regular
  | .binary left _ _ right | .logical left _ _ right => left.Regular ∧ right.Regular
  | .call callee _ arguments => callee.Regular ∧ Expr.RegularAll arguments
  | .get object _ => object.Regular
  | .grouping inner => inner.Regular
  | .literal _ | .variable _ => True
  | .set object _ value => object.Regular ∧ value.Regular
  | .super keyword _ => keyword.lexeme = "super"
  | .this keyword => keyword.lexeme = "this"
  | .unary _ _ right => right.Regular

def Expr.RegularAll : List Expr → Prop
  | [] => True
  | expression :: rest => expression.Regular ∧ Expr.RegularAll rest

end

def Expr.RegularOption : Option Expr → Prop
  | none => True
  | some expression => expression.Regular

mutual

/-- Declarations do not stand alone as branches or bodies, and do not declare reserved
names. -/
def Stmt.Regular : Stmt → Prop
  | .block statements => Stmt.RegularAll statements
  | .classDecl name _ methods => name.lexeme ∉ reservedNames ∧ Routine.RegularAll methods
  | .expression inner | .print inner => inner.Regular
  | .function routine => routine.Regular
  | .ifThen condition thenBranch none =>
    condition.Regular ∧ thenBranch.declared? = none ∧ thenBranch.Regular
  | .ifThen condition thenBranch (some elseBranch) =>
    condition.Regular ∧ (thenBranch.declared? = none ∧ thenBranch.Regular) ∧
      elseBranch.declared? = none ∧ elseBranch.Regular
  | .returns _ value => Expr.RegularOption value
  | .var name initializer => name.lexeme ∉ reservedNames ∧ Expr.RegularOption initializer
  | .whileLoop condition body => condition.Regular ∧ body.declared? = none ∧ body.Regular

def Routine.Regular : Routine → Prop
  | .mk name parameters body =>
    (name.lexeme ∉ reservedNames ∧
      ∀ parameter ∈ parameters, parameter.lexeme ∉ reservedNames) ∧
      Stmt.RegularAll body

def Stmt.RegularAll : List Stmt → Prop
  | [] => True
  | statement :: rest => statement.Regular ∧ Stmt.RegularAll rest

def Routine.RegularAll : List Routine → Prop
  | [] => True
  | routine :: rest => routine.Regular ∧ Routine.RegularAll rest

end

namespace Grammar

/-! ## Expressions -/

def ExpressionPhrase.IsRegular : (phrase : ExpressionPhrase) → phrase.Tree → Prop
  | .expression, tree | .joined _, tree | .operand _, tree | .unary, tree | .call, tree
  | .primary, tree => tree.Regular
  | .arguments, trees | .furtherArguments, trees => Expr.RegularAll trees

theorem Expression.isRegular {phrase : ExpressionPhrase} {tokens : List Occurrence}
    {tree : phrase.Tree} (derivation : Expression phrase tokens tree)
    (spelled : ∀ token ∈ tokens, token.Spelled) : phrase.IsRegular tree := by
  induction derivation with
  | assignVariable nameKind _ _ valueRegular =>
      simp only [List.forall_mem_cons] at spelled
      exact ⟨spelled.1.unreserved nameKind, valueRegular spelled.2.2⟩
  | assignProperty _ _ _ _ _ objectRegular valueRegular =>
      simp only [List.forall_mem_append, List.forall_mem_cons] at spelled
      exact ⟨objectRegular spelled.1, valueRegular spelled.2.2.2.2⟩
  | further _ wordKind _ leftRegular rightRegular =>
      simp only [List.forall_mem_append, List.forall_mem_cons] at spelled
      rcases build_of_mem_operators wordKind with ⟨operator, rfl⟩ | ⟨operator, rfl⟩
      all_goals exact ⟨leftRegular spelled.1, rightRegular spelled.2.2⟩
  | unassigned _ regular | single _ regular | conjunction _ regular | equality _ regular
  | comparison _ regular | term _ regular | factor _ regular | unary _ regular
  | call _ regular | primary _ regular => exact regular spelled
  | unaryOperator _ _ regular =>
      simp only [List.forall_mem_cons] at spelled
      exact regular spelled.2
  | callArguments _ _ _ _ _ calleeRegular argumentsRegular =>
      simp only [List.forall_mem_append, List.forall_mem_cons] at spelled
      exact ⟨calleeRegular spelled.1, argumentsRegular spelled.2.2.1⟩
  | callProperty _ _ _ regular =>
      simp only [List.forall_mem_append] at spelled
      exact regular spelled.1
  | falseLiteral | trueLiteral | nilLiteral | number | string | «variable» => trivial
  | super kind _ _ | this kind =>
      simp only [List.forall_mem_cons] at spelled
      exact spelled.1.keyword _ kind
  | grouping _ _ _ regular =>
      simp only [List.forall_mem_append, List.forall_mem_cons] at spelled
      exact regular spelled.2.1
  | noArguments | noFurtherArguments => trivial
  | someArguments _ _ argumentRegular othersRegular =>
      simp only [List.forall_mem_append] at spelled
      exact ⟨argumentRegular spelled.1, othersRegular spelled.2⟩
  | furtherArgument _ _ _ argumentRegular othersRegular =>
      simp only [List.forall_mem_append, List.forall_mem_cons] at spelled
      exact ⟨argumentRegular spelled.2.1, othersRegular spelled.2.2⟩

/-! ## Statements -/

section Clauses

variable {tokens : List Occurrence}

theorem OptionalExpression.isRegular {found : Option Expr}
    (phrase : OptionalExpression tokens found)
    (spelled : ∀ token ∈ tokens, token.Spelled) : Expr.RegularOption found := by
  cases phrase with
  | absent => trivial
  | present phrase => exact phrase.isRegular spelled

theorem InitializerClause.isRegular {found : Option Expr}
    (phrase : InitializerClause tokens found)
    (spelled : ∀ token ∈ tokens, token.Spelled) : Expr.RegularOption found := by
  cases phrase with
  | absent => trivial
  | present _ phrase =>
      simp only [List.forall_mem_cons] at spelled
      exact phrase.isRegular spelled.2

theorem ExpressionStatement.isRegular {tree : Stmt}
    (phrase : ExpressionStatement tokens tree)
    (spelled : ∀ token ∈ tokens, token.Spelled) : tree.Regular := by
  rcases phrase with ⟨phrase, _⟩
  simp only [List.forall_mem_append] at spelled
  exact phrase.isRegular spelled.1

theorem VarDeclaration.isRegular {tree : Stmt} (phrase : VarDeclaration tokens tree)
    (spelled : ∀ token ∈ tokens, token.Spelled) : tree.Regular := by
  rcases phrase with ⟨_, nameKind, phrase, _⟩
  simp only [List.forall_mem_append, List.forall_mem_cons] at spelled
  exact ⟨spelled.2.1.unreserved nameKind, phrase.isRegular spelled.2.2.1⟩

theorem FurtherParameters.unreserved {names : List Occurrence}
    (phrase : FurtherParameters tokens names)
    (spelled : ∀ token ∈ tokens, token.Spelled) :
    ∀ name ∈ names, name.lexeme ∉ reservedNames := by
  induction phrase with
  | none => simp
  | more _ nameKind _ others =>
      simp only [List.forall_mem_cons] at spelled ⊢
      exact ⟨spelled.2.1.unreserved nameKind, others spelled.2.2⟩

theorem Parameters.unreserved {names : List Occurrence} (phrase : Parameters tokens names)
    (spelled : ∀ token ∈ tokens, token.Spelled) :
    ∀ name ∈ names, name.lexeme ∉ reservedNames := by
  cases phrase with
  | none => simp
  | some nameKind others =>
      simp only [List.forall_mem_cons] at spelled ⊢
      exact ⟨spelled.1.unreserved nameKind, others.unreserved spelled.2⟩

theorem ForInitializer.isRegular {found : Option Stmt}
    (phrase : ForInitializer tokens found) (spelled : ∀ token ∈ tokens, token.Spelled) :
    ∀ tree ∈ found, tree.Regular := by
  cases phrase with
  | absent _ => simp
  | declaration phrase => simpa using phrase.isRegular spelled
  | expression phrase => simpa using phrase.isRegular spelled

end Clauses

def StatementPhrase.IsRegular : (phrase : StatementPhrase) → phrase.Tree → Prop
  | .declarations, trees | .block, trees => Stmt.RegularAll trees
  | .declaration, tree => tree.Regular
  | .statement _, tree => tree.Regular ∧ tree.declared? = none
  | .routine, tree => tree.Regular
  | .methods, trees => Routine.RegularAll trees

theorem repeatedByFor_regular {body : Stmt} {increment : Option Expr}
    (regular : body.Regular) (undeclared : body.declared? = none)
    (incrementRegular : Expr.RegularOption increment) :
    (repeatedByFor body increment).Regular ∧
      (repeatedByFor body increment).declared? = none := by
  cases increment with
  | none => exact ⟨regular, undeclared⟩
  | some increment => exact ⟨⟨regular, incrementRegular, trivial⟩, rfl⟩

theorem condition_regular {condition : Option Expr}
    (regular : Expr.RegularOption condition) :
    (condition.getD (.literal (.bool true))).Regular := by
  cases condition with
  | none => trivial
  | some condition => exact regular

theorem forTree_regular {condition increment : Option Expr} {body : Stmt}
    {initializer : Option Stmt} (initializerRegular : ∀ tree ∈ initializer, tree.Regular)
    (conditionRegular : Expr.RegularOption condition)
    (incrementRegular : Expr.RegularOption increment) (bodyRegular : body.Regular)
    (undeclared : body.declared? = none) :
    (forTree condition increment body initializer).Regular ∧
      (forTree condition increment body initializer).declared? = none := by
  rcases repeatedByFor_regular bodyRegular undeclared incrementRegular with
      ⟨regular, undeclared⟩
  have loop : (Stmt.whileLoop (condition.getD (.literal (.bool true)))
      (repeatedByFor body increment)).Regular :=
    ⟨condition_regular conditionRegular, undeclared, regular⟩
  cases initializer with
  | none => exact ⟨loop, rfl⟩
  | some initializer => exact ⟨⟨initializerRegular _ rfl, loop, trivial⟩, rfl⟩

theorem Statement.isRegular {rule : ElseRule} {phrase : StatementPhrase}
    {tokens : List Occurrence} {tree : phrase.Tree}
    (derivation : Statement rule phrase tokens tree)
    (spelled : ∀ token ∈ tokens, token.Spelled) : phrase.IsRegular tree := by
  induction derivation with
  | noDeclarations | noMethods => trivial
  | moreDeclarations _ _ firstRegular restRegular
  | moreMethods _ _ firstRegular restRegular =>
      simp only [List.forall_mem_append] at spelled
      exact ⟨firstRegular spelled.1, restRegular spelled.2⟩
  | classDeclaration _ nameKind _ _ _ _ methodsRegular =>
      simp only [List.forall_mem_append, List.forall_mem_cons] at spelled
      exact ⟨spelled.2.1.unreserved nameKind, methodsRegular spelled.2.2.2.2.1⟩
  | functionDeclaration _ _ regular =>
      simp only [List.forall_mem_cons] at spelled
      exact regular spelled.2
  | varDeclaration phrase => exact phrase.isRegular spelled
  | statement _ regular => exact (regular spelled).1
  | routine nameKind _ parametersPhrase _ _ _ bodyRegular =>
      simp only [List.forall_mem_append, List.forall_mem_cons] at spelled
      exact ⟨⟨spelled.1.unreserved nameKind, parametersPhrase.unreserved spelled.2.2.1⟩,
        bodyRegular spelled.2.2.2.2⟩
  | block _ _ _ regular =>
      simp only [List.forall_mem_append, List.forall_mem_cons] at spelled
      exact regular spelled.2.1
  | expressionStatement phrase =>
      refine ⟨phrase.isRegular spelled, ?_⟩
      cases phrase
      rfl
  | blockStatement _ regular => exact ⟨regular spelled, rfl⟩
  | printStatement _ valuePhrase _ =>
      simp only [List.forall_mem_append, List.forall_mem_cons] at spelled
      exact ⟨valuePhrase.isRegular spelled.2.1, rfl⟩
  | returnStatement _ valuePhrase _ =>
      simp only [List.forall_mem_append, List.forall_mem_cons] at spelled
      exact ⟨valuePhrase.isRegular spelled.2.1, rfl⟩
  | whileStatement _ _ conditionPhrase _ _ bodyRegular =>
      simp only [List.forall_mem_append, List.forall_mem_cons] at spelled
      rcases bodyRegular spelled.2.2.2.2 with ⟨regular, undeclared⟩
      exact ⟨⟨conditionPhrase.isRegular spelled.2.2.1, undeclared, regular⟩, rfl⟩
  | forStatement _ _ initializerPhrase conditionPhrase _ incrementPhrase _ _
      bodyRegular =>
      simp only [List.forall_mem_append, List.forall_mem_cons] at spelled
      rcases spelled with
          ⟨_, _, initializerSpelled, conditionSpelled, _, incrementSpelled, _,
            bodySpelled⟩
      rcases bodyRegular bodySpelled with ⟨regular, undeclared⟩
      exact forTree_regular (initializerPhrase.isRegular initializerSpelled)
        (conditionPhrase.isRegular conditionSpelled)
        (incrementPhrase.isRegular incrementSpelled) regular undeclared
  | ifStatement _ _ conditionPhrase _ _ thenRegular =>
      simp only [List.forall_mem_append, List.forall_mem_cons] at spelled
      rcases thenRegular spelled.2.2.2.2 with ⟨regular, undeclared⟩
      exact ⟨⟨conditionPhrase.isRegular spelled.2.2.1, undeclared, regular⟩, rfl⟩
  | ifElseStatement _ _ conditionPhrase _ _ _ _ _ thenRegular elseRegular =>
      simp only [List.forall_mem_append, List.forall_mem_cons] at spelled
      rcases spelled with ⟨_, _, conditionSpelled, _, thenSpelled, _, elseSpelled⟩
      rcases thenRegular thenSpelled with ⟨thenRegular, thenUndeclared⟩
      rcases elseRegular elseSpelled with ⟨elseRegular, elseUndeclared⟩
      exact ⟨⟨conditionPhrase.isRegular conditionSpelled, ⟨thenUndeclared, thenRegular⟩,
        elseUndeclared, elseRegular⟩, rfl⟩

end Grammar

end LoxLang
