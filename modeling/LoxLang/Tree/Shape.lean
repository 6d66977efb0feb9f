/-!
# Shapes of tree nodes

Each kind of node has a name, belongs to the expressions or to the statements, and has a
fixed list of named fields. The shapes describe trees as data, for listings and for
building single nodes.
-/

namespace LoxLang

inductive Family where
  | expression | statement
  deriving DecidableEq, Repr

inductive Shape where
  | assign | binary | call | get | grouping | literal | logical | set | super | this
  | unary | variable
  | block | classDecl | expression | function | ifThen | print | returns | var | whileLoop
  deriving DecidableEq, Repr

namespace Shape

def all : List Shape :=
  [assign, binary, call, get, grouping, literal, logical, set, super, this, unary,
    .variable, block, classDecl, expression, function, ifThen, print, returns, var, whileLoop]

def name : Shape → String
  | assign => "Assign" | binary => "Binary" | call => "Call" | get => "Get"
  | grouping => "Grouping" | literal => "Literal" | logical => "Logical" | set => "Set"
  | super => "Super" | this => "This" | unary => "Unary" | .variable => "Variable"
  | block => "Block" | classDecl => "Class" | expression => "Expression"
  | function => "Function" | ifThen => "If" | print => "Print" | returns => "Return"
  | var => "Var" | whileLoop => "While"

def family : Shape → Family
  | assign | binary | call | get | grouping | literal | logical | set | super | this
  | unary | .variable => .expression
  | block | classDecl | expression | function | ifThen | print | returns | var
  | whileLoop => .statement

def fieldNames : Shape → List String
  | assign => ["name", "value"]
  | binary => ["left", "operator", "right"]
  | call => ["callee", "paren", "arguments"]
  | get => ["object", "name"]
  | grouping => ["expression"]
  | literal => ["value"]
  | logical => ["left", "operator", "right"]
  | set => ["object", "name", "value"]
  | super => ["keyword", "method"]
  | this => ["keyword"]
  | unary => ["operator", "right"]
  | .variable => ["name"]
  | block => ["statements"]
  | classDecl => ["name", "superclass", "methods"]
  | expression => ["expression"]
  | function => ["name", "params", "body"]
  | ifThen => ["condition", "then_branch", "else_branch"]
  | print => ["expression"]
  | returns => ["keyword", "value"]
  | var => ["name", "initializer"]
  | whileLoop => ["condition", "body"]

def ofName? (family : Family) (name : String) : Option Shape :=
  all.find? fun shape => shape.family = family && shape.name = name

end Shape

end LoxLang
