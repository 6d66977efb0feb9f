import LoxLang.Proofs.Tree.Words

/-! # One name in place of another

At every place of a program it is known how an old name is to be understood there: whether
it stands for the declaration that gets a new name, or for something else. Whatever is
declared and referred to has to be spelled accordingly. Then both programs see the same
cells, only one of them under another name.
-/

namespace LoxLang

structure Respelling where
  old : String
  new : String
  oldUnreserved : old ∉ reservedNames
  newUnreserved : new ∉ reservedNames
  different : new ≠ old

namespace Respelling

variable (respelling : Respelling) {name : String} (reserved : name ∈ reservedNames)

include reserved

theorem ne_old : name ≠ respelling.old :=
  fun same => respelling.oldUnreserved (same ▸ reserved)

theorem ne_new : name ≠ respelling.new :=
  fun same => respelling.newUnreserved (same ▸ reserved)

end Respelling

/-- What is known about the two names at a place. -/
inductive Sight where
  /-- Nothing is renamed in this code, and both names may be used for anything. -/
  | apart
  /-- At the top level, where no name is local. -/
  | outside
  /-- The old name does not stand for the renamed declaration. The new name is not used. -/
  | plain
  /-- The old name stands for the renamed declaration. The new name is not used. -/
  | renamed
  deriving DecidableEq

namespace Sight

variable (respelling : Respelling)

def Allows : Sight → String → Prop
  | apart, _ | outside, _ => True
  | plain, name | renamed, name => name ≠ respelling.new

/-- How a name is spelled after the renaming. -/
def spell : Sight → String → String
  | renamed, name => if name = respelling.old then respelling.new else name
  | apart, name | outside, name | plain, name => name

/-- What is known behind a declaration of a name, which gets another spelling if it is the
renamed one. -/
def declare (sight : Sight) (name spelling : String) : Sight :=
  match sight with
  | apart => apart
  | outside => outside
  | plain | renamed =>
    if name = respelling.old then if spelling = name then plain else renamed else sight

def enter : Sight → Sight
  | outside => plain
  | sight => sight

@[simp] theorem enter_enter (sight : Sight) : sight.enter.enter = sight.enter := by
  cases sight <;> rfl

theorem enter_ne_outside (sight : Sight) : sight.enter ≠ .outside := by
  cases sight <;> nofun

theorem enter_ne_apart {sight : Sight} (notApart : sight ≠ .apart) :
    sight.enter ≠ .apart := by
  cases sight with
  | apart => exact absurd rfl notApart
  | outside | plain | renamed => nofun

variable {respelling} {sight : Sight} {name spelling other : String}

theorem spell_of_ne (different : name ≠ respelling.old) :
    sight.spell respelling name = name := by
  cases sight with
  | renamed => exact if_neg different
  | apart | outside | plain => rfl

theorem allows_reserved (reserved : name ∈ reservedNames) : sight.Allows respelling name := by
  cases sight with
  | apart | outside => trivial
  | plain | renamed => exact respelling.ne_new reserved

theorem spell_reserved (reserved : name ∈ reservedNames) :
    sight.spell respelling name = name := spell_of_ne (respelling.ne_old reserved)

theorem declare_of_ne (different : name ≠ respelling.old) :
    sight.declare respelling name spelling = sight := by
  cases sight with
  | apart | outside => rfl
  | plain | renamed => exact if_neg different

theorem declare_ne_outside (inside : sight ≠ .outside) :
    sight.declare respelling name spelling ≠ .outside := by
  cases sight with
  | outside => exact absurd rfl inside
  | apart => nofun
  | plain | renamed =>
      rw [declare]
      split
      · split <;> nofun
      · nofun

theorem declare_ne_apart (notApart : sight ≠ .apart) :
    sight.declare respelling name spelling ≠ .apart := by
  cases sight with
  | apart => exact absurd rfl notApart
  | outside => nofun
  | plain | renamed =>
      rw [declare]
      split
      · split <;> nofun
      · nofun

theorem allows_declare :
    (sight.declare respelling name spelling).Allows respelling other ↔
      sight.Allows respelling other := by
  cases sight with
  | apart | outside => rfl
  | plain | renamed =>
      rw [declare]
      split
      · split <;> rfl
      · rfl

theorem spell_inj (allowed : sight.Allows respelling name)
    (allowed' : sight.Allows respelling other)
    (same : sight.spell respelling name = sight.spell respelling other) : name = other := by
  cases sight with
  | apart | outside | plain => exact same
  | renamed =>
      rw [spell, spell] at same
      split at same <;> split at same
      case isTrue.isTrue isOld isOld' => rw [isOld, isOld']
      case isTrue.isFalse => exact absurd same.symm allowed'
      case isFalse.isTrue => exact absurd same allowed
      case isFalse.isFalse => exact same

theorem spelling_eq_iff (allowed : sight.Allows respelling name)
    (spelled : spelling = sight.spell respelling name)
    (allowed' : sight.Allows respelling other) :
    spelling = sight.spell respelling other ↔ name = other := by
  constructor
  · exact fun same => spell_inj allowed allowed' (spelled.symm.trans same)
  · exact fun same => same ▸ spelled

theorem spell_declare_of_ne (different : name ≠ other) :
    (sight.declare respelling name spelling).spell respelling other =
      sight.spell respelling other := by
  by_cases isOld : name = respelling.old
  · have notOld : other ≠ respelling.old := fun same => different (isOld.trans same.symm)
    rw [spell_of_ne notOld, spell_of_ne notOld]
  · rw [declare_of_ne isOld]

end Sight

/-! ## What is spelled accordingly -/

section Fits

variable (respelling : Respelling) (move : Occurrence → Occurrence)

def Occurrence.Keeps (word : Occurrence) : Prop := (move word).lexeme = word.lexeme

namespace Sight

structure Refers (sight : Sight) (name : Occurrence) : Prop where
  allowed : sight.Allows respelling name.lexeme
  spelling : (move name).lexeme = sight.spell respelling name.lexeme

def after (sight : Sight) (name : Occurrence) : Sight :=
  sight.declare respelling name.lexeme (move name).lexeme

def afterAll (sight : Sight) (names : List Occurrence) : Sight :=
  names.foldl (after respelling move) sight

def Declares (sight : Sight) (name : Occurrence) : Prop :=
  (sight.after respelling move name).Refers respelling move name

def DeclaresAll (sight : Sight) : List Occurrence → Prop
  | [] => True
  | name :: rest =>
    sight.Declares respelling move name ∧ (sight.after respelling move name).DeclaresAll rest

end Sight

mutual

def Expr.Fits (sight : Sight) : Expr → Prop
  | .assign name value => sight.Refers respelling move name ∧ value.Fits sight
  | .binary left _ _ right | .logical left _ _ right => left.Fits sight ∧ right.Fits sight
  | .call callee _ arguments => callee.Fits sight ∧ Expr.FitsAll sight arguments
  | .get object name => name.Keeps move ∧ object.Fits sight
  | .grouping inner => inner.Fits sight
  | .literal _ => True
  | .set object name value => name.Keeps move ∧ object.Fits sight ∧ value.Fits sight
  | .super keyword method => sight.Refers respelling move keyword ∧ method.Keeps move
  | .this keyword => sight.Refers respelling move keyword
  | .unary _ _ right => right.Fits sight
  | .variable name => sight.Refers respelling move name

def Expr.FitsAll (sight : Sight) : List Expr → Prop
  | [] => True
  | expression :: rest => expression.Fits sight ∧ Expr.FitsAll sight rest

end

def Expr.FitsOption (sight : Sight) : Option Expr → Prop
  | none => True
  | some expression => expression.Fits respelling move sight

def Stmt.sightAfter (sight : Sight) (statement : Stmt) : Sight :=
  match statement.declared? with
  | some name => sight.after respelling move name
  | none => sight

mutual

def Stmt.Fits (sight : Sight) : Stmt → Prop
  | .block statements => Stmt.FitsAll sight.enter statements
  | .classDecl name superclass methods =>
    (name.Keeps move ∧ sight.Declares respelling move name) ∧
      (∀ clause ∈ superclass, sight.Refers respelling move clause) ∧
        Routine.FitsAll (sight.after respelling move name) methods
  | .expression inner | .print inner => inner.Fits respelling move sight
  | .function routine =>
    sight.Declares respelling move routine.name ∧
      routine.Fits (sight.after respelling move routine.name)
  | .ifThen condition thenBranch none =>
    condition.Fits respelling move sight ∧ thenBranch.Fits sight
  | .ifThen condition thenBranch (some elseBranch) =>
    condition.Fits respelling move sight ∧ thenBranch.Fits sight ∧ elseBranch.Fits sight
  | .returns _ value => Expr.FitsOption respelling move sight value
  | .var name initializer =>
    sight.Declares respelling move name ∧
      Expr.FitsOption respelling move (sight.after respelling move name) initializer
  | .whileLoop condition body => condition.Fits respelling move sight ∧ body.Fits sight

def Routine.Fits (sight : Sight) : Routine → Prop
  | .mk name parameters body =>
    name.Keeps move ∧ sight.enter.DeclaresAll respelling move parameters ∧
      Stmt.FitsAll (sight.enter.afterAll respelling move parameters) body

def Stmt.FitsAll (sight : Sight) : List Stmt → Prop
  | [] => True
  | statement :: rest =>
    statement.Fits sight ∧ Stmt.FitsAll (statement.sightAfter respelling move sight) rest

def Routine.FitsAll (sight : Sight) : List Routine → Prop
  | [] => True
  | routine :: rest => routine.Fits sight ∧ Routine.FitsAll sight rest

end

theorem Routine.fits_enter (sight : Sight) (routine : Routine) :
    routine.Fits respelling move sight.enter ↔ routine.Fits respelling move sight := by
  rcases routine with ⟨_, _, _⟩
  rw [Routine.Fits, Routine.Fits, Sight.enter_enter]

theorem Routine.fitsAll_enter (sight : Sight) (routines : List Routine) :
    Routine.FitsAll respelling move sight.enter routines ↔
      Routine.FitsAll respelling move sight routines := by
  induction routines with
  | nil => rfl
  | cons routine rest induction =>
      rw [Routine.FitsAll, Routine.FitsAll, Routine.fits_enter, induction]

end Fits

/-! ## Code in which nothing is renamed -/

section Apart

variable {respelling : Respelling} {move : Occurrence → Occurrence}

theorem Sight.refers_apart (same : SameWords move) (name : Occurrence) :
    Sight.apart.Refers respelling move name := ⟨trivial, same.lexeme name⟩

theorem Sight.declaresAll_apart (same : SameWords move) (names : List Occurrence) :
    Sight.apart.DeclaresAll respelling move names ∧
      Sight.apart.afterAll respelling move names = .apart := by
  induction names with
  | nil => exact ⟨trivial, rfl⟩
  | cons name rest induction =>
      exact ⟨⟨refers_apart same name, induction.1⟩, induction.2⟩

theorem Stmt.sightAfter_apart (statement : Stmt) :
    statement.sightAfter respelling move .apart = .apart := by
  rw [Stmt.sightAfter]
  split <;> rfl

mutual

theorem Expr.fits_apart (same : SameWords move) :
    ∀ expression : Expr, expression.Fits respelling move .apart
  | .assign name value => ⟨Sight.refers_apart same name, Expr.fits_apart same value⟩
  | .binary left _ _ right | .logical left _ _ right =>
    ⟨Expr.fits_apart same left, Expr.fits_apart same right⟩
  | .call callee _ arguments =>
    ⟨Expr.fits_apart same callee, Expr.fitsAll_apart same arguments⟩
  | .get object name => ⟨same.lexeme name, Expr.fits_apart same object⟩
  | .grouping inner => Expr.fits_apart same inner
  | .literal _ => trivial
  | .set object name value =>
    ⟨same.lexeme name, Expr.fits_apart same object, Expr.fits_apart same value⟩
  | .super keyword method => ⟨Sight.refers_apart same keyword, same.lexeme method⟩
  | .this keyword => Sight.refers_apart same keyword
  | .unary _ _ right => Expr.fits_apart same right
  | .variable name => Sight.refers_apart same name

theorem Expr.fitsAll_apart (same : SameWords move) :
    ∀ expressions : List Expr, Expr.FitsAll respelling move .apart expressions
  | [] => trivial
  | expression :: rest => ⟨Expr.fits_apart same expression, Expr.fitsAll_apart same rest⟩

end

theorem Expr.fitsOption_apart (same : SameWords move) :
    ∀ expression : Option Expr, Expr.FitsOption respelling move .apart expression
  | none => trivial
  | some expression => Expr.fits_apart same expression

mutual

theorem Stmt.fits_apart (same : SameWords move) :
    ∀ statement : Stmt, statement.Fits respelling move .apart
  | .block statements => Stmt.fitsAll_apart same statements
  | .classDecl name _ methods =>
    ⟨⟨same.lexeme name, Sight.refers_apart same name⟩,
      fun clause _ => Sight.refers_apart same clause, Routine.fitsAll_apart same methods⟩
  | .expression inner | .print inner => Expr.fits_apart same inner
  | .function routine =>
    ⟨Sight.refers_apart same routine.name, Routine.fits_apart same routine⟩
  | .ifThen condition thenBranch none =>
    ⟨Expr.fits_apart same condition, Stmt.fits_apart same thenBranch⟩
  | .ifThen condition thenBranch (some elseBranch) =>
    ⟨Expr.fits_apart same condition, Stmt.fits_apart same thenBranch,
      Stmt.fits_apart same elseBranch⟩
  | .returns _ value => Expr.fitsOption_apart same value
  | .var name initializer =>
    ⟨Sight.refers_apart same name, Expr.fitsOption_apart same initializer⟩
  | .whileLoop condition body =>
    ⟨Expr.fits_apart same condition, Stmt.fits_apart same body⟩

theorem Routine.fits_apart (same : SameWords move) :
    ∀ routine : Routine, routine.Fits respelling move .apart
  | .mk name parameters body => by
      have declared : Sight.apart.DeclaresAll respelling move parameters ∧
          Sight.apart.afterAll respelling move parameters = .apart :=
        Sight.declaresAll_apart same parameters
      refine ⟨same.lexeme name, declared.1, ?_⟩
      change Stmt.FitsAll respelling move (Sight.apart.afterAll respelling move parameters) body
      rw [declared.2]
      exact Stmt.fitsAll_apart same body

theorem Stmt.fitsAll_apart (same : SameWords move) :
    ∀ statements : List Stmt, Stmt.FitsAll respelling move .apart statements
  | [] => trivial
  | statement :: rest => by
      refine ⟨Stmt.fits_apart same statement, ?_⟩
      rw [Stmt.sightAfter_apart]
      exact Stmt.fitsAll_apart same rest

theorem Routine.fitsAll_apart (same : SameWords move) :
    ∀ routines : List Routine, Routine.FitsAll respelling move .apart routines
  | [] => trivial
  | routine :: rest =>
    ⟨Routine.fits_apart same routine, Routine.fitsAll_apart same rest⟩

end

end Apart

end LoxLang
