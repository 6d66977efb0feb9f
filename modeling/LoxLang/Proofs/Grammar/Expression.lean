import LoxLang.Tree.Basic
import LoxLang.Reading.Expression

/-! # The grammar of expressions

The productions, each with the tree it stands for. Nothing here looks ahead or runs out of
anything: a token list either is a phrase of the grammar or it is not. A repetition `(
operator operand )*` is built up from its left end, so operators of one level associate to
the left.
-/

namespace LoxLang.Grammar

/-- The phrases that make up expressions. A `joined` level is called `logic_or`,
`logic_and`, `equality`, `comparison`, `term` or `factor` in the grammar; its `operand` is
the next of these. -/
inductive ExpressionPhrase where
  | expression
  | joined (level : Level)
  | operand (level : Level)
  | unary
  | call
  | primary
  | arguments
  | furtherArguments

@[reducible] def ExpressionPhrase.Tree : ExpressionPhrase → Type
  | expression | joined _ | operand _ | unary | call | primary => Expr
  | arguments | furtherArguments => List Expr

def operators : Level → List (Kind × (Expr → Occurrence → Expr → Expr))
  | .disjunction => [(Keyword.orWord, (Expr.logical · .disjunction · ·))]
  | .conjunction => [(Keyword.andWord, (Expr.logical · .conjunction · ·))]
  | .equality =>
      [(Symbol.bangEqual, (Expr.binary · .notEqual · ·)),
        (Symbol.equalEqual, (Expr.binary · .equal · ·))]
  | .comparison =>
      [(Symbol.greater, (Expr.binary · .greater · ·)),
        (Symbol.greaterEqual, (Expr.binary · .greaterEqual · ·)),
        (Symbol.less, (Expr.binary · .less · ·)),
        (Symbol.lessEqual, (Expr.binary · .lessEqual · ·))]
  | .term =>
      [(Symbol.minus, (Expr.binary · .subtract · ·)),
        (Symbol.plus, (Expr.binary · .add · ·))]
  | .factor =>
      [(Symbol.slash, (Expr.binary · .divide · ·)),
        (Symbol.star, (Expr.binary · .multiply · ·))]

def unaryOperators : List (Kind × UnaryOperator) :=
  [(Symbol.bang, .not), (Symbol.minus, .negate)]

/-- `Expression phrase tokens tree`: the tokens are a phrase of the grammar, and stand for
the tree. -/
inductive Expression :
    (phrase : ExpressionPhrase) → List Occurrence → phrase.Tree → Prop
  -- `assignment → IDENTIFIER "=" assignment`
  | assignVariable {name equal : Occurrence} {tokens : List Occurrence} {value : Expr}
      (nameKind : name.kind = .identifier) (equalKind : equal.kind = Symbol.equal)
      (valuePhrase : Expression .expression tokens value) :
      Expression .expression (name :: equal :: tokens) (.assign name value)
  -- `assignment → call "." IDENTIFIER "=" assignment`
  | assignProperty {dot name equal : Occurrence} {before tokens : List Occurrence}
      {object value : Expr} (objectPhrase : Expression .call before object)
      (dotKind : dot.kind = Symbol.dot) (nameKind : name.kind = .identifier)
      (equalKind : equal.kind = Symbol.equal)
      (valuePhrase : Expression .expression tokens value) :
      Expression .expression (before ++ dot :: name :: equal :: tokens)
        (.set object name value)
  -- `assignment → logic_or`
  | unassigned {tokens : List Occurrence} {tree : Expr}
      (phrase : Expression (.joined .disjunction) tokens tree) :
      Expression .expression tokens tree
  -- The first operand of a level, as in `term → factor`.
  | single {level : Level} {tokens : List Occurrence} {tree : Expr}
      (phrase : Expression (.operand level) tokens tree) :
        Expression (.joined level) tokens tree
  -- One more operand of a level, as in `term → … ( "-" | "+" ) factor`.
  | further {level : Level} {build : Expr → Occurrence → Expr → Expr} {word : Occurrence}
      {before tokens : List Occurrence} {left right : Expr}
      (leftPhrase : Expression (.joined level) before left)
      (wordKind : (word.kind, build) ∈ operators level)
      (rightPhrase : Expression (.operand level) tokens right) :
      Expression (.joined level) (before ++ word :: tokens) (build left word right)
  | conjunction {tokens : List Occurrence} {tree : Expr}
      (phrase : Expression (.joined .conjunction) tokens tree) :
      Expression (.operand .disjunction) tokens tree
  | equality {tokens : List Occurrence} {tree : Expr}
      (phrase : Expression (.joined .equality) tokens tree) :
      Expression (.operand .conjunction) tokens tree
  | comparison {tokens : List Occurrence} {tree : Expr}
      (phrase : Expression (.joined .comparison) tokens tree) :
      Expression (.operand .equality) tokens tree
  | term {tokens : List Occurrence} {tree : Expr}
      (phrase : Expression (.joined .term) tokens tree) :
      Expression (.operand .comparison) tokens tree
  | factor {tokens : List Occurrence} {tree : Expr}
      (phrase : Expression (.joined .factor) tokens tree) :
      Expression (.operand .term) tokens tree
  | unary {tokens : List Occurrence} {tree : Expr}
      (phrase : Expression .unary tokens tree) :
      Expression (.operand .factor) tokens tree
  -- `unary → ( "!" | "-" ) unary`
  | unaryOperator {operator : UnaryOperator} {word : Occurrence}
      {tokens : List Occurrence}
      {right : Expr} (wordKind : (word.kind, operator) ∈ unaryOperators)
      (rightPhrase : Expression .unary tokens right) :
      Expression .unary (word :: tokens) (.unary operator word right)
  -- `unary → call`
  | call {tokens : List Occurrence} {tree : Expr}
      (phrase : Expression .call tokens tree) :
      Expression .unary tokens tree
  -- `call → primary`
  | primary {tokens : List Occurrence} {tree : Expr}
      (phrase : Expression .primary tokens tree) :
      Expression .call tokens tree
  -- `call → … "(" arguments? ")"`
  | callArguments {leftParen rightParen : Occurrence} {before tokens : List Occurrence}
      {callee : Expr} {arguments : List Expr}
        (calleePhrase : Expression .call before callee)
      (leftParenKind : leftParen.kind = Symbol.leftParen)
      (argumentsPhrase : Expression .arguments tokens arguments)
      (argumentsBound : arguments.length ≤ 255)
      (rightParenKind : rightParen.kind = Symbol.rightParen) :
      Expression .call (before ++ leftParen :: (tokens ++ [rightParen]))
        (.call callee rightParen arguments)
  -- `call → … "." IDENTIFIER`
  | callProperty {dot name : Occurrence} {before : List Occurrence} {object : Expr}
      (objectPhrase : Expression .call before object) (dotKind : dot.kind = Symbol.dot)
      (nameKind : name.kind = .identifier) :
      Expression .call (before ++ [dot, name]) (.get object name)
  | falseLiteral {word : Occurrence} (kind : word.kind = Keyword.falseWord) :
      Expression .primary [word] (.literal (.bool false))
  | trueLiteral {word : Occurrence} (kind : word.kind = Keyword.trueWord) :
      Expression .primary [word] (.literal (.bool true))
  | nilLiteral {word : Occurrence} (kind : word.kind = Keyword.nilWord) :
      Expression .primary [word] (.literal .nil)
  | number {word : Occurrence} (kind : word.kind = .number) :
      Expression .primary [word] (.literal word.literal)
  | string {word : Occurrence} (kind : word.kind = .string) :
      Expression .primary [word] (.literal word.literal)
  -- `primary → "super" "." IDENTIFIER`
  | super {keyword dot method : Occurrence}
      (keywordKind : keyword.kind = Keyword.superWord)
      (dotKind : dot.kind = Symbol.dot) (methodKind : method.kind = .identifier) :
      Expression .primary [keyword, dot, method] (.super keyword method)
  | this {keyword : Occurrence} (kind : keyword.kind = Keyword.thisWord) :
      Expression .primary [keyword] (.this keyword)
  | variable {name : Occurrence} (kind : name.kind = .identifier) :
      Expression .primary [name] (.variable name)
  -- `primary → "(" expression ")"`
  | grouping {leftParen rightParen : Occurrence} {tokens : List Occurrence} {inner : Expr}
      (leftParenKind : leftParen.kind = Symbol.leftParen)
      (innerPhrase : Expression .expression tokens inner)
      (rightParenKind : rightParen.kind = Symbol.rightParen) :
      Expression .primary (leftParen :: (tokens ++ [rightParen])) (.grouping inner)
  | noArguments : Expression .arguments [] []
  -- `arguments → expression ( "," expression )*`
  | someArguments {tokens others : List Occurrence} {argument : Expr}
      {arguments : List Expr} (argumentPhrase : Expression .expression tokens argument)
      (othersPhrase : Expression .furtherArguments others arguments) :
      Expression .arguments (tokens ++ others) (argument :: arguments)
  | noFurtherArguments : Expression .furtherArguments [] []
  | furtherArgument {comma : Occurrence} {tokens others : List Occurrence}
      {argument : Expr} {arguments : List Expr} (commaKind : comma.kind = Symbol.comma)
      (argumentPhrase : Expression .expression tokens argument)
      (othersPhrase : Expression .furtherArguments others arguments) :
      Expression .furtherArguments (comma :: (tokens ++ others)) (argument :: arguments)

theorem build_of_mem_operators {level : Level} {kind : Kind}
    {build : Expr → Occurrence → Expr → Expr} (member : (kind, build) ∈ operators level) :
    (∃ operator, build = (Expr.logical · operator · ·)) ∨
      ∃ operator, build = (Expr.binary · operator · ·) := by
  cases level <;> simp only [operators, List.mem_cons, Prod.mk.injEq, List.not_mem_nil,
    or_false] at member
  all_goals first
    | exact .inl ⟨_, member.2⟩
    | rcases member with member | member <;> exact .inr ⟨_, member.2⟩
    | rcases member with member | member | member | member <;> exact .inr ⟨_, member.2⟩

def startsExpression : Kind → Bool
  | .keyword .falseWord | .keyword .trueWord | .keyword .nilWord | .keyword .superWord
  | .keyword .thisWord | .number | .string | .identifier
  | .symbol .leftParen | .symbol .bang | .symbol .minus => true
  | _ => false

namespace ExpressionPhrase

def isExpression : ExpressionPhrase → Bool
  | arguments | furtherArguments => false
  | expression | joined _ | operand _ | unary | call | primary => true

end ExpressionPhrase

theorem Expression.starts {phrase : ExpressionPhrase} {tokens : List Occurrence}
    {tree : phrase.Tree} (derivation : Expression phrase tokens tree)
    (isExpression : phrase.isExpression) :
    ∃ first rest, tokens = first :: rest ∧ startsExpression first.kind := by
  induction derivation with
  | assignVariable nameKind _ _ => exact ⟨_, _, rfl, by simp [startsExpression, nameKind]⟩
  | assignProperty _ _ _ _ _ objectStarts =>
      rcases objectStarts rfl with ⟨first, rest, rfl, starts⟩
      exact ⟨first, _, rfl, starts⟩
  | further _ _ _ leftStarts =>
      rcases leftStarts rfl with ⟨first, rest, rfl, starts⟩
      exact ⟨first, _, rfl, starts⟩
  | unaryOperator wordKind _ =>
      refine ⟨_, _, rfl, ?_⟩
      simp only [unaryOperators, List.mem_cons, Prod.mk.injEq, List.not_mem_nil, or_false]
        at wordKind
      obtain ⟨kind, -⟩ | ⟨kind, -⟩ := wordKind <;> simp [startsExpression, kind]
  | callArguments _ _ _ _ _ calleeStarts =>
      rcases calleeStarts rfl with ⟨first, rest, rfl, starts⟩
      exact ⟨first, _, rfl, starts⟩
  | callProperty _ _ _ objectStarts =>
      rcases objectStarts rfl with ⟨first, rest, rfl, starts⟩
      exact ⟨first, _, rfl, starts⟩
  | unassigned _ starts | single _ starts | conjunction _ starts | equality _ starts
  | comparison _ starts | term _ starts | factor _ starts | unary _ starts | call _ starts
  | primary _ starts => exact starts rfl
  | falseLiteral kind | trueLiteral kind | nilLiteral kind | number kind | string kind
  | this kind | «variable» kind => exact ⟨_, _, rfl, by simp [startsExpression, kind]⟩
  | super kind _ _ => exact ⟨_, _, rfl, by simp [startsExpression, kind]⟩
  | grouping kind _ _ => exact ⟨_, _, rfl, by simp [startsExpression, kind]⟩
  | noArguments | someArguments | noFurtherArguments | furtherArgument =>
      simp [ExpressionPhrase.isExpression] at isExpression

end LoxLang.Grammar
