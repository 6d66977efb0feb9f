import LoxLang.Token.Basic

/-!
# Programs as trees

A program is a list of statements. Every word that a later stage may have to point at, be
it a name, an operator or a closing parenthesis, is kept as the occurrence it was read
from. The references among expressions, that is variables, assignments, `this` and
`super`, are told apart by the places of their occurrences.
-/

namespace LoxLang

inductive BinaryOperator where
  | equal | notEqual
  | greater | greaterEqual | less | lessEqual
  | add | subtract | multiply | divide
  deriving DecidableEq, Repr

/-- Operators whose right operand is evaluated only if the left one does not decide. -/
inductive LogicalOperator where
  | conjunction | disjunction
  deriving DecidableEq, Repr

inductive UnaryOperator where
  | not | negate
  deriving DecidableEq, Repr

inductive Expr where
  | assign (name : Occurrence) (value : Expr)
  | binary (left : Expr) (operator : BinaryOperator) (word : Occurrence) (right : Expr)
  | call (callee : Expr) (paren : Occurrence) (arguments : List Expr)
  | get (object : Expr) (name : Occurrence)
  | grouping (inner : Expr)
  | literal (value : Literal)
  | logical (left : Expr) (operator : LogicalOperator) (word : Occurrence) (right : Expr)
  | set (object : Expr) (name : Occurrence) (value : Expr)
  | super (keyword : Occurrence) (method : Occurrence)
  | this (keyword : Occurrence)
  | unary (operator : UnaryOperator) (word : Occurrence) (right : Expr)
  | variable (name : Occurrence)

mutual

inductive Stmt where
  | block (statements : List Stmt)
  | classDecl (name : Occurrence) (superclass : Option Occurrence)
      (methods : List Routine)
  | expression (expression : Expr)
  | function (routine : Routine)
  | ifThen (condition : Expr) (thenBranch : Stmt) (elseBranch : Option Stmt)
  | print (expression : Expr)
  | returns (keyword : Occurrence) (value : Option Expr)
  | var (name : Occurrence) (initializer : Option Expr)
  | whileLoop (condition : Expr) (body : Stmt)

inductive Routine where
  | mk (name : Occurrence) (parameters : List Occurrence) (body : List Stmt)

end

namespace Routine

def name : Routine → Occurrence
  | mk name _ _ => name

def parameters : Routine → List Occurrence
  | mk _ parameters _ => parameters

def body : Routine → List Stmt
  | mk _ _ body => body

def isNamedInit (routine : Routine) : Bool := routine.name.lexeme = "init"

end Routine

end LoxLang
