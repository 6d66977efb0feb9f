import LoxLang.Tree.Basic

/-!
# The references of a program

References are the expressions whose meaning depends on where a name is bound. They are
listed in the order in which the tree is walked: an expression before its parts, and the
parts from left to right. An assignment is thus listed before the references in its value.
-/

namespace LoxLang

inductive ReferenceKind where
  | variable | assignment | this | super
  deriving DecidableEq, Repr

structure Reference where
  kind : ReferenceKind
  occurrence : Occurrence

mutual

def Expr.references : Expr → List Reference
  | .assign name value => ⟨.assignment, name⟩ :: value.references
  | .binary left _ _ right => left.references ++ right.references
  | .call callee _ arguments => callee.references ++ Expr.referencesOfAll arguments
  | .get object _ => object.references
  | .grouping inner => inner.references
  | .literal _ => []
  | .logical left _ _ right => left.references ++ right.references
  | .set object _ value => object.references ++ value.references
  | .super keyword _ => [⟨.super, keyword⟩]
  | .this keyword => [⟨.this, keyword⟩]
  | .unary _ _ right => right.references
  | .variable name => [⟨.variable, name⟩]

def Expr.referencesOfAll : List Expr → List Reference
  | [] => []
  | expression :: rest => expression.references ++ Expr.referencesOfAll rest

end

def Expr.referencesOfOption : Option Expr → List Reference
  | none => []
  | some expression => expression.references

mutual

def Stmt.references : Stmt → List Reference
  | .block statements => Stmt.referencesOfAll statements
  | .classDecl _ superclass methods =>
    (superclass.toList.map fun name => ⟨.variable, name⟩) ++
      Routine.referencesOfAll methods
  | .expression inner => inner.references
  | .function routine => routine.references
  | .ifThen condition thenBranch none => condition.references ++ thenBranch.references
  | .ifThen condition thenBranch (some elseBranch) =>
    condition.references ++ thenBranch.references ++ elseBranch.references
  | .print inner => inner.references
  | .returns _ value => Expr.referencesOfOption value
  | .var _ initializer => Expr.referencesOfOption initializer
  | .whileLoop condition body => condition.references ++ body.references

def Routine.references : Routine → List Reference
  | .mk _ _ body => Stmt.referencesOfAll body

def Stmt.referencesOfAll : List Stmt → List Reference
  | [] => []
  | statement :: rest => statement.references ++ Stmt.referencesOfAll rest

def Routine.referencesOfAll : List Routine → List Reference
  | [] => []
  | routine :: rest => routine.references ++ Routine.referencesOfAll rest

end

end LoxLang
