import LoxLang.Tree.Basic
import LoxLang.Tree.Shape

/-!
# Trees as data

An outline is a tree without its types: every node is a shape with its fields in order.
Listings are written from outlines, so that each need not know every kind of node.
-/

namespace LoxLang

inductive Outline where
  | node (shape : Shape) (fields : List Outline)
  | token (token : Token)
  | literal (value : Literal)
  | sequence (items : List Outline)
  | absent

namespace Outline

inductive NodeFault where
  | fieldCount (shape : Shape) (given : Nat)
  | immutable (shape : Shape)
  deriving DecidableEq, Repr

def NodeFault.message : NodeFault → String
  | fieldCount shape given =>
    s!"{shape.name}.__init__() take {shape.fieldNames.length} positional arguments but " ++
      s!"{given} were given"
  | immutable shape => s!"{shape.name} node is immutable"

/-- A node of a shape takes exactly one value for each of its fields. -/
def ofFields (shape : Shape) (fields : List Outline) : Except NodeFault Outline :=
  if fields.length = shape.fieldNames.length then .ok (node shape fields)
  else .error (.fieldCount shape fields.length)

/-- Giving a field of a node another value is always refused. -/
def setField (shape : Shape) (_field : String) : Except NodeFault Outline :=
  .error (.immutable shape)

end Outline

/-- The outline of an occurrence is that of its token; places are not shown. -/
def Occurrence.outline (occurrence : Occurrence) : Outline := .token occurrence.toToken

mutual

def Expr.outline : Expr → Outline
  | .assign name value => .node .assign [name.outline, value.outline]
  | .binary left _ word right => .node .binary [left.outline, word.outline, right.outline]
  | .call callee paren arguments =>
    .node .call [callee.outline, paren.outline, .sequence (Expr.outlines arguments)]
  | .get object name => .node .get [object.outline, name.outline]
  | .grouping inner => .node .grouping [inner.outline]
  | .literal value => .node .literal [.literal value]
  | .logical left _ word right =>
    .node .logical [left.outline, word.outline, right.outline]
  | .set object name value => .node .set [object.outline, name.outline, value.outline]
  | .super keyword method => .node .super [keyword.outline, method.outline]
  | .this keyword => .node .this [keyword.outline]
  | .unary _ word right => .node .unary [word.outline, right.outline]
  | .variable name => .node .variable [name.outline]

def Expr.outlines : List Expr → List Outline
  | [] => []
  | expression :: rest => expression.outline :: Expr.outlines rest

end

namespace Outline

def ofOption : Option Expr → Outline
  | none => absent
  | some expression => expression.outline

/-- A superclass clause is shown as the variable it reads. -/
def ofSuperclass : Option Occurrence → Outline
  | none => absent
  | some name => (Expr.variable name).outline

end Outline

mutual

def Stmt.outline : Stmt → Outline
  | .block statements => .node .block [.sequence (Stmt.outlines statements)]
  | .classDecl name superclass methods =>
    .node .classDecl
      [name.outline, .ofSuperclass superclass, .sequence (Routine.outlines methods)]
  | .expression inner => .node .expression [inner.outline]
  | .function routine => routine.outline
  | .ifThen condition thenBranch none =>
    .node .ifThen [condition.outline, thenBranch.outline, .absent]
  | .ifThen condition thenBranch (some elseBranch) =>
    .node .ifThen [condition.outline, thenBranch.outline, elseBranch.outline]
  | .print inner => .node .print [inner.outline]
  | .returns keyword value => .node .returns [keyword.outline, .ofOption value]
  | .var name initializer => .node .var [name.outline, .ofOption initializer]
  | .whileLoop condition body => .node .whileLoop [condition.outline, body.outline]

def Routine.outline : Routine → Outline
  | .mk name parameters body =>
    .node .function
      [name.outline, .sequence (parameters.map Occurrence.outline),
        .sequence (Stmt.outlines body)]

def Stmt.outlines : List Stmt → List Outline
  | [] => []
  | statement :: rest => statement.outline :: Stmt.outlines rest

def Routine.outlines : List Routine → List Outline
  | [] => []
  | routine :: rest => routine.outline :: Routine.outlines rest

end

end LoxLang
