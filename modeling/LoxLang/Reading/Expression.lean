import LoxLang.Reading.Stream
import LoxLang.Tree.Basic

/-!
# Reading expressions

Expressions are read by descent through the levels of precedence. Every reader takes a
limit on the depth of the descent, which only serves to show that it ends:
`Stream.descent` is more than any stream needs.
-/

namespace LoxLang

/-- The levels at which two operands are joined, from the loosest to the tightest. -/
inductive Level where
  | disjunction | conjunction | equality | comparison | term | factor
  deriving DecidableEq, Repr

inductive Connective where
  | logical (operator : LogicalOperator)
  | binary (operator : BinaryOperator)
  deriving DecidableEq, Repr

namespace Level

def tighter? : Level → Option Level
  | disjunction => some conjunction
  | conjunction => some equality
  | equality => some comparison
  | comparison => some term
  | term => some factor
  | factor => none

def connective? : Level → Kind → Option Connective
  | disjunction, .keyword .orWord => some (.logical .disjunction)
  | conjunction, .keyword .andWord => some (.logical .conjunction)
  | equality, .symbol .bangEqual => some (.binary .notEqual)
  | equality, .symbol .equalEqual => some (.binary .equal)
  | comparison, .symbol .greater => some (.binary .greater)
  | comparison, .symbol .greaterEqual => some (.binary .greaterEqual)
  | comparison, .symbol .less => some (.binary .less)
  | comparison, .symbol .lessEqual => some (.binary .lessEqual)
  | term, .symbol .minus => some (.binary .subtract)
  | term, .symbol .plus => some (.binary .add)
  | factor, .symbol .slash => some (.binary .divide)
  | factor, .symbol .star => some (.binary .multiply)
  | _, _ => none

end Level

def Connective.join (left : Expr) (word : Occurrence) (right : Expr) : Connective → Expr
  | logical operator => .logical left operator word right
  | binary operator => .binary left operator word right

def UnaryOperator.ofKind? : Kind → Option UnaryOperator
  | .symbol .bang => some .not
  | .symbol .minus => some .negate
  | _ => none

/-- The assignment that gives `value` to what `target` reads, if `target` can be assigned
to. -/
def Expr.assigning? (target value : Expr) : Option Expr :=
  match target with
  | .variable name => some (.assign name value)
  | .get object name => some (.set object name value)
  | _ => none

/-- A depth of descent that reading the rest of a stream never needs. -/
def Stream.descent (stream : Stream) : Nat := (stream.rest.length + 1) * 32

namespace Reader

mutual

/-- An expression, which may be an assignment. A target that cannot be assigned to is a
fault, but one that leaves no doubt about what follows. -/
def expression : Nat → Reader Expr
  | 0 => tooDeep
  | depth + 1 => do
    let target ← joined depth .disjunction
    match ← accept Symbol.equal with
    | none => pure target
    | some word => do
      let value ← expression depth
      match target.assigning? value with
      | some assignment => pure assignment
      | none => do
        complain word .invalidTarget
        pure target

def joined : Nat → Level → Reader Expr
  | 0, _ => tooDeep
  | depth + 1, level => do
    let left ← operand depth level
    joinedTo depth level left

def operand : Nat → Level → Reader Expr
  | 0, _ => tooDeep
  | depth + 1, level =>
    match level.tighter? with
    | some tighter => joined depth tighter
    | none => unary depth

def joinedTo : Nat → Level → Expr → Reader Expr
  | 0, _, _ => tooDeep
  | depth + 1, level, left => do
    match ← acceptAs level.connective? with
    | none => pure left
    | some (connective, word) => do
      let right ← operand depth level
      joinedTo depth level (connective.join left word right)

def unary : Nat → Reader Expr
  | 0 => tooDeep
  | depth + 1 => do
    match ← acceptAs UnaryOperator.ofKind? with
    | some (operator, word) => do
      let right ← unary depth
      pure (.unary operator word right)
    | none => do
      let callee ← primary depth
      suffixed depth callee

def suffixed : Nat → Expr → Reader Expr
  | 0, _ => tooDeep
  | depth + 1, callee => do
    match ← accept Symbol.leftParen with
    | some _ => do
      let arguments ← arguments depth
      let paren ← expect Symbol.rightParen .argumentsEnd
      suffixed depth (.call callee paren arguments)
    | none => do
      match ← accept Symbol.dot with
      | some _ => do
        let name ← expect .identifier .propertyName
        suffixed depth (.get callee name)
      | none => pure callee

def arguments : Nat → Reader (List Expr)
  | 0 => tooDeep
  | depth + 1 => do
    if ← follows Symbol.rightParen then pure []
    else do
      let first ← expression depth
      let others ← moreArguments depth 1
      pure (first :: others)

/-- The arguments behind further commas, after `count` arguments. Too many are a fault
that leaves no doubt about what follows. -/
def moreArguments : Nat → Nat → Reader (List Expr)
  | 0, _ => tooDeep
  | depth + 1, count => do
    match ← accept Symbol.comma with
    | none => pure []
    | some _ => do
      if listLimit ≤ count then complain (← next) .tooManyArguments
      let argument ← expression depth
      let others ← moreArguments depth (count + 1)
      pure (argument :: others)

def primary : Nat → Reader Expr
  | 0 => tooDeep
  | depth + 1 => do
    let word ← next
    match word.kind with
    | .keyword .falseWord => do skip; pure (.literal (.bool false))
    | .keyword .trueWord => do skip; pure (.literal (.bool true))
    | .keyword .nilWord => do skip; pure (.literal .nil)
    | .number => do skip; pure (.literal word.literal)
    | .string => do skip; pure (.literal word.literal)
    | .keyword .superWord => do
      skip
      let _ ← expect Symbol.dot .superDot
      let method ← expect .identifier .superMethod
      pure (.super word method)
    | .keyword .thisWord => do skip; pure (.this word)
    | .identifier => do skip; pure (.variable word)
    | .symbol .leftParen => do
      skip
      let inner ← expression depth
      let _ ← expect Symbol.rightParen .groupingEnd
      pure (.grouping inner)
    | _ => missing .expression

end

end Reader

end LoxLang
