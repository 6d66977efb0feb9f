import LoxLang.Machine.Basic
import LoxLang.Proofs.Grammar.Regular

/-! # Programs with settled references

A settlement is what a machine knows about references: their distances, for all places
below a limit. A part of a program is settled within scopes if every reference in it is
known there with the distance that the scopes give it, no name is used that makes no
sense, and declarations stand only where they have a scope to themselves.
-/

namespace LoxLang

structure Settlement where
  distances : Distances
  /-- The references at places from here on are not known yet. -/
  limit : Nat

namespace Settlement

/-- The reference is known with the distance that the scopes give it. -/
def Binds (settlement : Settlement) (scopes : Scopes) (reference : Occurrence) : Prop :=
  reference.place < settlement.limit ∧
    settlement.distances.get? reference.place = scopes.distance? reference.lexeme

/-- The newer settlement knows more references, and the same about those known before. -/
structure Extends (older newer : Settlement) : Prop where
  limit : older.limit ≤ newer.limit
  distances : ∀ place, place < older.limit →
    newer.distances.get? place = older.distances.get? place

theorem Extends.refl (settlement : Settlement) : settlement.Extends settlement :=
  ⟨Nat.le_refl _, fun _ _ => rfl⟩

theorem Extends.trans {first second third : Settlement} (left : first.Extends second)
    (right : second.Extends third) : first.Extends third where
  limit := Nat.le_trans left.limit right.limit
  distances place below :=
    (right.distances place (Nat.lt_of_lt_of_le below left.limit)).trans
      (left.distances place below)

theorem Binds.mono {older newer : Settlement} {scopes : Scopes} {reference : Occurrence}
    (binds : older.Binds scopes reference) (extends_ : older.Extends newer) :
    newer.Binds scopes reference :=
  ⟨Nat.lt_of_lt_of_le binds.1 extends_.limit,
    (extends_.distances _ binds.1).trans binds.2⟩

end Settlement

namespace Scopes

def state? (scopes : Scopes) (name : String) : Option Bool :=
  scopes.findSome? (·.get? name)

end Scopes

variable (settlement : Settlement)

structure Scopes.Reads (scopes : Scopes) (name : Occurrence) : Prop where
  binds : settlement.Binds scopes name
  complete : scopes.state? name.lexeme ≠ some false

structure Scopes.Admits (scopes : Scopes) (name : Occurrence) : Prop where
  unreserved : name.lexeme ∉ reservedNames
  fresh : scopes.declaredHere name.lexeme = false

structure Scopes.ReadsThis (scopes : Scopes) (keyword : Occurrence) : Prop where
  lexeme : keyword.lexeme = "this"
  binds : settlement.Binds scopes keyword
  complete : scopes.state? "this" = some true

structure Scopes.ReadsSuper (scopes : Scopes) (keyword : Occurrence) : Prop where
  lexeme : keyword.lexeme = "super"
  binds : settlement.Binds scopes keyword
  nested : ∃ distance, scopes.distance? "super" = some (distance + 1) ∧
    scopes.distance? "this" = some distance
  complete : scopes.state? "super" = some true ∧ scopes.state? "this" = some true

mutual

def Expr.Settled (scopes : Scopes) : Expr → Prop
  | .assign name value =>
    value.Settled scopes ∧ settlement.Binds scopes name ∧ name.lexeme ∉ reservedNames
  | .binary left _ _ right => left.Settled scopes ∧ right.Settled scopes
  | .call callee _ arguments => callee.Settled scopes ∧ Expr.SettledAll scopes arguments
  | .get object _ => object.Settled scopes
  | .grouping inner => inner.Settled scopes
  | .literal _ => True
  | .logical left _ _ right => left.Settled scopes ∧ right.Settled scopes
  | .set object _ value => object.Settled scopes ∧ value.Settled scopes
  | .super keyword _ => scopes.ReadsSuper settlement keyword
  | .this keyword => scopes.ReadsThis settlement keyword
  | .unary _ _ right => right.Settled scopes
  | .variable name => scopes.Reads settlement name

def Expr.SettledAll (scopes : Scopes) : List Expr → Prop
  | [] => True
  | expression :: rest => expression.Settled scopes ∧ Expr.SettledAll scopes rest

end

def Expr.SettledOption (scopes : Scopes) : Option Expr → Prop
  | none => True
  | some expression => expression.Settled settlement scopes

def Scopes.SettledSuperclass (scopes : Scopes) (name : Occurrence) :
    Option Occurrence → Prop
  | none => True
  | some superclass =>
    superclass.lexeme ≠ name.lexeme ∧ scopes.Reads settlement superclass

mutual

def Stmt.Settled (scopes : Scopes) : Stmt → Prop
  | .block statements => Stmt.SettledAll (scopes.nest []) statements
  | .classDecl name superclass methods =>
    scopes.Admits name ∧ scopes.SettledSuperclass settlement name superclass ∧
      Routine.SettledAll ((scopes.define name.lexeme).insideClass superclass) methods
  | .expression inner => inner.Settled settlement scopes
  | .function routine =>
    scopes.Admits routine.name ∧ routine.Settled (scopes.define routine.name.lexeme)
  | .ifThen condition thenBranch none =>
    condition.Settled settlement scopes ∧ thenBranch.declared? = none ∧
      thenBranch.Settled scopes
  | .ifThen condition thenBranch (some elseBranch) =>
    condition.Settled settlement scopes ∧
      (thenBranch.declared? = none ∧ thenBranch.Settled scopes) ∧
        elseBranch.declared? = none ∧ elseBranch.Settled scopes
  | .print inner => inner.Settled settlement scopes
  | .returns _ value => Expr.SettledOption settlement scopes value
  | .var name initializer =>
    scopes.Admits name ∧ Expr.SettledOption settlement (scopes.declare name.lexeme)
      initializer
  | .whileLoop condition body =>
    condition.Settled settlement scopes ∧ body.declared? = none ∧ body.Settled scopes

/-- Parameters have different names, and share a scope with the body. -/
def Routine.Settled (scopes : Scopes) : Routine → Prop
  | .mk _ parameters body =>
    ((parameters.map (·.lexeme)).Nodup ∧
      ∀ name ∈ parameters, name.lexeme ∉ reservedNames) ∧
      Stmt.SettledAll (scopes.nest (parameters.map (·.lexeme))) body

def Stmt.SettledAll (scopes : Scopes) : List Stmt → Prop
  | [] => True
  | statement :: rest =>
    statement.Settled scopes ∧ Stmt.SettledAll (statement.scopesAfter scopes) rest

def Routine.SettledAll (scopes : Scopes) : List Routine → Prop
  | [] => True
  | routine :: rest => routine.Settled scopes ∧ Routine.SettledAll scopes rest

end

/-! ## Later settlements -/

section Extends

variable {settlement} {newer : Settlement}

theorem Scopes.Reads.mono {scopes : Scopes} {name : Occurrence}
    (reads : scopes.Reads settlement name) (later : settlement.Extends newer) :
    scopes.Reads newer name := ⟨reads.binds.mono later, reads.complete⟩

theorem Scopes.SettledSuperclass.mono {scopes : Scopes} {name : Occurrence}
    {superclass : Option Occurrence}
    (settled : scopes.SettledSuperclass settlement name superclass)
    (later : settlement.Extends newer) :
    scopes.SettledSuperclass newer name superclass := by
  cases superclass with
  | none => trivial
  | some superclass => exact ⟨settled.1, settled.2.mono later⟩

mutual

theorem Expr.settled_mono (later : settlement.Extends newer) (scopes : Scopes) :
    ∀ expression : Expr, expression.Settled settlement scopes →
      expression.Settled newer scopes
  | .assign _ value, ⟨settled, binds, unreserved⟩ =>
      ⟨Expr.settled_mono later scopes value settled, binds.mono later, unreserved⟩
  | .binary left _ _ right, ⟨settled, settled'⟩ | .logical left _ _ right,
      ⟨settled, settled'⟩ =>
      ⟨Expr.settled_mono later scopes left settled,
        Expr.settled_mono later scopes right settled'⟩
  | .call callee _ arguments, ⟨settled, settled'⟩ =>
      ⟨Expr.settled_mono later scopes callee settled,
        Expr.settledAll_mono later scopes arguments settled'⟩
  | .get object _, settled => Expr.settled_mono later scopes object settled
  | .grouping inner, settled => Expr.settled_mono later scopes inner settled
  | .literal _, _ => trivial
  | .set object _ value, ⟨settled, settled'⟩ =>
      ⟨Expr.settled_mono later scopes object settled,
        Expr.settled_mono later scopes value settled'⟩
  | .super _ _, ⟨lexeme, binds, nested, complete⟩ =>
    ⟨lexeme, binds.mono later, nested, complete⟩
  | .this _, ⟨lexeme, binds, complete⟩ => ⟨lexeme, binds.mono later, complete⟩
  | .unary _ _ right, settled => Expr.settled_mono later scopes right settled
  | .variable _, reads => Scopes.Reads.mono reads later

theorem Expr.settledAll_mono (later : settlement.Extends newer) (scopes : Scopes) :
    ∀ expressions : List Expr, Expr.SettledAll settlement scopes expressions →
      Expr.SettledAll newer scopes expressions
  | [], _ => trivial
  | expression :: rest, ⟨settled, settled'⟩ =>
      ⟨Expr.settled_mono later scopes expression settled,
        Expr.settledAll_mono later scopes rest settled'⟩

end

theorem Expr.settledOption_mono (later : settlement.Extends newer) (scopes : Scopes) :
    ∀ expression : Option Expr, Expr.SettledOption settlement scopes expression →
      Expr.SettledOption newer scopes expression
  | none, _ => trivial
  | some expression, settled => Expr.settled_mono later scopes expression settled

mutual

theorem Stmt.settled_mono (later : settlement.Extends newer) (scopes : Scopes) :
    ∀ statement : Stmt, statement.Settled settlement scopes →
      statement.Settled newer scopes
  | .block statements, settled => Stmt.settledAll_mono later _ statements settled
  | .classDecl _ _ methods, ⟨admits, superclass, settled⟩ =>
      ⟨admits, superclass.mono later, Routine.settledAll_mono later _ methods settled⟩
  | .expression inner, settled | .print inner, settled =>
    Expr.settled_mono later scopes inner settled
  | .function routine, ⟨admits, settled⟩ =>
      ⟨admits, Routine.settled_mono later _ routine settled⟩
  | .ifThen condition thenBranch none, ⟨settled, undeclared, settled'⟩ =>
      ⟨Expr.settled_mono later scopes condition settled, undeclared,
        Stmt.settled_mono later scopes thenBranch settled'⟩
  | .ifThen condition thenBranch (some elseBranch),
      ⟨settled, ⟨undeclared, settled'⟩, undeclared', settled''⟩ =>
      ⟨Expr.settled_mono later scopes condition settled,
        ⟨undeclared, Stmt.settled_mono later scopes thenBranch settled'⟩, undeclared',
        Stmt.settled_mono later scopes elseBranch settled''⟩
  | .returns _ value, settled => Expr.settledOption_mono later scopes value settled
  | .var _ initializer, ⟨admits, settled⟩ =>
      ⟨admits, Expr.settledOption_mono later _ initializer settled⟩
  | .whileLoop condition body, ⟨settled, undeclared, settled'⟩ =>
      ⟨Expr.settled_mono later scopes condition settled, undeclared,
        Stmt.settled_mono later scopes body settled'⟩

theorem Routine.settled_mono (later : settlement.Extends newer) (scopes : Scopes) :
    ∀ routine : Routine, routine.Settled settlement scopes → routine.Settled newer scopes
  | .mk _ _ body, ⟨parameters, settled⟩ =>
      ⟨parameters, Stmt.settledAll_mono later _ body settled⟩

theorem Stmt.settledAll_mono (later : settlement.Extends newer) (scopes : Scopes) :
    ∀ statements : List Stmt, Stmt.SettledAll settlement scopes statements →
      Stmt.SettledAll newer scopes statements
  | [], _ => trivial
  | statement :: rest, ⟨settled, settled'⟩ =>
      ⟨Stmt.settled_mono later scopes statement settled,
        Stmt.settledAll_mono later _ rest settled'⟩

theorem Routine.settledAll_mono (later : settlement.Extends newer) (scopes : Scopes) :
    ∀ routines : List Routine, Routine.SettledAll settlement scopes routines →
      Routine.SettledAll newer scopes routines
  | [], _ => trivial
  | routine :: rest, ⟨settled, settled'⟩ =>
      ⟨Routine.settled_mono later scopes routine settled,
        Routine.settledAll_mono later scopes rest settled'⟩

end

end Extends

end LoxLang
