import LoxLang.Binding.Finding
import LoxLang.Reading.Fault
import LoxLang.Tree.References

/-! # Regions of a program and what is known in them

What a name is bound to can be told without walking through the program. A region is a
part of it that has a scope of its own. It knows the names of the declarations that stand
in it, from the place of each on. A site is a word for whose use the regions around it
matter. The nearest of them that knows the word is what the word is bound to, and the
regions also tell which uses make no sense.
-/

namespace LoxLang

/-- A part of a program with a scope of its own. -/
inductive Region where
  | block (statements : List Stmt)
  | routine (kind : RoutineKind) (routine : Routine)
  | methods (derived : Bool)
  | heritage

namespace Region

def declared : Region → List Occurrence
  | block statements => statements.filterMap Stmt.declared?
  | .routine _ (.mk _ parameters body) => parameters ++ body.filterMap Stmt.declared?
  | methods _ | heritage => []

/-- The word that a class binds in the region. -/
def given? : Region → Option String
  | methods _ => some "this"
  | heritage => some "super"
  | _ => none

/-- The name has been declared in the region before the place. What a class binds is
known everywhere. -/
def Knows (region : Region) (name : String) (place : Nat) : Prop :=
  region.given? = some name ∨
    ∃ declaration ∈ region.declared, declaration.lexeme = name ∧ declaration.place < place

instance (region : Region) (name : String) (place : Nat) :
    Decidable (region.Knows name place) := by
  unfold Knows
  infer_instance

def routine? : Region → Option (RoutineKind × Routine)
  | .routine kind body => some (kind, body)
  | _ => none

def derived? : Region → Option Bool
  | methods derived => some derived
  | _ => none

def ofClass : Option Occurrence → List Region
  | none => [methods false]
  | some _ => [methods true, heritage]

end Region

/-- What a word is used for. -/
inductive Use where
  | declares
  | refers (kind : ReferenceKind) (initialized : Option Occurrence)
  | inherits (subclass : Occurrence)
  | returns (withValue : Bool)

structure Mention where
  use : Use
  word : Occurrence

namespace Mention

def declaration (name : Occurrence) : Mention := ⟨.declares, name⟩

def ofReference (initialized : Option Occurrence) (reference : Reference) : Mention :=
  ⟨.refers reference.kind initialized, reference.occurrence⟩

def superclass (name : Occurrence) (clause : Option Occurrence) : List Mention :=
  clause.toList.map fun word => ⟨.inherits name, word⟩

def reference? : Mention → Option Reference
  | ⟨.refers kind _, word⟩ => some ⟨kind, word⟩
  | ⟨.inherits _, word⟩ => some ⟨.variable, word⟩
  | ⟨.declares, _⟩ | ⟨.returns _, _⟩ => none

end Mention

/-- A word with its use, and the regions around it, the innermost first. -/
structure Site extends Mention where
  regions : List Region

namespace Site

/-- The word is used where the region at this distance is the nearest one that knows
it. -/
def BoundAt (site : Site) (distance : Nat) : Prop :=
  (∃ region, site.regions[distance]? = some region ∧
    region.Knows site.word.lexeme site.word.place) ∧
  ∀ nearer ∈ site.regions.take distance, ¬nearer.Knows site.word.lexeme site.word.place

def Unbound (site : Site) : Prop :=
  ∀ region ∈ site.regions, ¬region.Knows site.word.lexeme site.word.place

def routine? (site : Site) : Option (RoutineKind × Routine) :=
  site.regions.findSome? Region.routine?

def derived? (site : Site) : Option Bool := site.regions.findSome? Region.derived?

/-- The use of the word makes no sense, for this reason. -/
def Violates (site : Site) (cause : BindingCause) : Prop :=
  match site.use, cause with
  | .declares, .alreadyDeclared =>
    ∃ region ∈ site.regions.head?, region.Knows site.word.lexeme site.word.place
  | .refers .variable (some name), .ownInitializer =>
    site.regions ≠ [] ∧ site.word.lexeme = name.lexeme
  | .returns _, .topLevelReturn => site.routine? = none
  | .returns true, .initializerReturn =>
    ∃ routine ∈ site.routine?, routine.1 = .method ∧ routine.2.isNamedInit = true
  | .refers .this _, .thisOutsideClass => site.derived? = none
  | .refers .super _, .superOutsideClass => site.derived? = none
  | .refers .super _, .superWithoutSuperclass => site.derived? = some false
  | .inherits subclass, .selfInheritance => site.word.lexeme = subclass.lexeme
  | _, _ => False

end Site

/-! ## The sites of a program -/

def Mention.sites (regions : List Region) (mentions : List Mention) : List Site :=
  mentions.map (⟨·, regions⟩)

def Expr.mentions (initialized : Option Occurrence) (expression : Expr) : List Mention :=
  expression.references.map (.ofReference initialized)

def Expr.mentionsOfOption (initialized : Option Occurrence) (expression : Option Expr) :
    List Mention :=
  (Expr.referencesOfOption expression).map (.ofReference initialized)

mutual

def Stmt.mentions : Stmt → List Mention
  | .block statements => Stmt.mentionsOfAll statements
  | .classDecl name superclass methods =>
    .declaration name :: (Mention.superclass name superclass ++
      Routine.mentionsOfMethods methods)
  | .expression inner | .print inner => inner.mentions none
  | .function routine => .declaration routine.name :: routine.mentions
  | .ifThen condition thenBranch none => condition.mentions none ++ thenBranch.mentions
  | .ifThen condition thenBranch (some elseBranch) =>
    condition.mentions none ++ (thenBranch.mentions ++ elseBranch.mentions)
  | .returns keyword value =>
    ⟨.returns value.isSome, keyword⟩ :: Expr.mentionsOfOption none value
  | .var name initializer =>
    .declaration name :: Expr.mentionsOfOption (some name) initializer
  | .whileLoop condition body => condition.mentions none ++ body.mentions

def Routine.mentions : Routine → List Mention
  | .mk _ parameters body => parameters.map .declaration ++ Stmt.mentionsOfAll body

def Stmt.mentionsOfAll : List Stmt → List Mention
  | [] => []
  | statement :: rest => statement.mentions ++ Stmt.mentionsOfAll rest

def Routine.mentionsOfMethods : List Routine → List Mention
  | [] => []
  | method :: rest => method.mentions ++ Routine.mentionsOfMethods rest

end

mutual

def Stmt.sites (regions : List Region) : Stmt → List Site
  | .block statements => Stmt.sitesOfAll (.block statements :: regions) statements
  | .classDecl name superclass methods =>
    ⟨.declaration name, regions⟩ ::
      (Mention.sites regions (Mention.superclass name superclass) ++
        Routine.sitesOfMethods (Region.ofClass superclass ++ regions) methods)
  | .expression inner | .print inner => Mention.sites regions (inner.mentions none)
  | .function routine =>
    ⟨.declaration routine.name, regions⟩ :: routine.sites .function regions
  | .ifThen condition thenBranch none =>
    Mention.sites regions (condition.mentions none) ++ thenBranch.sites regions
  | .ifThen condition thenBranch (some elseBranch) =>
    Mention.sites regions (condition.mentions none) ++
      (thenBranch.sites regions ++ elseBranch.sites regions)
  | .returns keyword value =>
    ⟨⟨.returns value.isSome, keyword⟩, regions⟩ ::
      Mention.sites regions (Expr.mentionsOfOption none value)
  | .var name initializer =>
    ⟨.declaration name, regions⟩ ::
      Mention.sites regions (Expr.mentionsOfOption (some name) initializer)
  | .whileLoop condition body =>
    Mention.sites regions (condition.mentions none) ++ body.sites regions

def Routine.sites (kind : RoutineKind) (regions : List Region) : Routine → List Site
  | .mk name parameters body =>
    let inside := .routine kind (.mk name parameters body) :: regions
    Mention.sites inside (parameters.map .declaration) ++ Stmt.sitesOfAll inside body

def Stmt.sitesOfAll (regions : List Region) : List Stmt → List Site
  | [] => []
  | statement :: rest => statement.sites regions ++ Stmt.sitesOfAll regions rest

def Routine.sitesOfMethods (regions : List Region) : List Routine → List Site
  | [] => []
  | method :: rest =>
    method.sites .method regions ++ Routine.sitesOfMethods regions rest

end

/-! ## Sites and what is mentioned at them -/

@[simp] theorem Mention.toMention_sites (regions : List Region) (mentions : List Mention) :
    (Mention.sites regions mentions).map Site.toMention = mentions := by
  simp [Mention.sites, Function.comp_def]

mutual

@[simp] theorem Stmt.toMention_sites (regions : List Region) :
    ∀ statement : Stmt, (statement.sites regions).map Site.toMention = statement.mentions
  | .block statements => Stmt.toMention_sitesOfAll _ statements
  | .classDecl name superclass methods => by
      simp [Stmt.sites, Stmt.mentions, Routine.toMention_sitesOfMethods _ methods]
  | .expression _ | .print _ => Mention.toMention_sites _ _
  | .function routine => by
      simp [Stmt.sites, Stmt.mentions, Routine.toMention_sites _ _ routine]
  | .ifThen _ thenBranch none => by
      simp [Stmt.sites, Stmt.mentions, Stmt.toMention_sites regions thenBranch]
  | .ifThen _ thenBranch (some elseBranch) => by
      simp [Stmt.sites, Stmt.mentions, Stmt.toMention_sites regions thenBranch,
        Stmt.toMention_sites regions elseBranch]
  | .returns _ _ | .var _ _ => by simp [Stmt.sites, Stmt.mentions]
  | .whileLoop _ body => by
      simp [Stmt.sites, Stmt.mentions, Stmt.toMention_sites regions body]

@[simp] theorem Routine.toMention_sites (kind : RoutineKind) (regions : List Region) :
    ∀ routine : Routine, (routine.sites kind regions).map Site.toMention = routine.mentions
  | .mk _ _ body => by
      simp [Routine.sites, Routine.mentions, Stmt.toMention_sitesOfAll _ body]

@[simp] theorem Stmt.toMention_sitesOfAll (regions : List Region) :
    ∀ statements : List Stmt,
      (Stmt.sitesOfAll regions statements).map Site.toMention =
        Stmt.mentionsOfAll statements
  | [] => rfl
  | statement :: rest => by
      simp [Stmt.sitesOfAll, Stmt.mentionsOfAll, Stmt.toMention_sites regions statement,
        Stmt.toMention_sitesOfAll regions rest]

@[simp] theorem Routine.toMention_sitesOfMethods (regions : List Region) :
    ∀ methods : List Routine, (Routine.sitesOfMethods regions methods).map Site.toMention =
      Routine.mentionsOfMethods methods
  | [] => rfl
  | method :: rest => by
      simp [Routine.sitesOfMethods, Routine.mentionsOfMethods,
        Routine.toMention_sites _ regions method,
        Routine.toMention_sitesOfMethods regions rest]

end

/-! ## All references are mentioned -/

namespace Mention

@[simp] theorem reference?_declaration (name : Occurrence) :
    (declaration name).reference? = none := rfl

theorem filterMap_ofReference (initialized : Option Occurrence)
    (references : List Reference) :
    (references.map (ofReference initialized)).filterMap reference? = references := by
  rw [List.filterMap_map]
  exact List.filterMap_some

theorem occurrence_of_reference? {mention : Mention} {reference : Reference}
    (refers : mention.reference? = some reference) :
    reference.occurrence = mention.word := by
  rcases mention with ⟨use, word⟩
  cases use <;> cases refers <;> rfl

@[simp] theorem filterMap_superclass (name : Occurrence) (clause : Option Occurrence) :
    (superclass name clause).filterMap reference? =
      clause.toList.map fun word => ⟨.variable, word⟩ := by
  cases clause <;> rfl

end Mention

@[simp] theorem Expr.reference?_mentions (initialized : Option Occurrence)
    (expression : Expr) :
    (expression.mentions initialized).filterMap Mention.reference? = expression.references :=
  Mention.filterMap_ofReference initialized _

@[simp] theorem Expr.reference?_mentionsOfOption (initialized : Option Occurrence)
    (expression : Option Expr) :
    (Expr.mentionsOfOption initialized expression).filterMap Mention.reference? =
      Expr.referencesOfOption expression :=
  Mention.filterMap_ofReference initialized _

mutual

theorem Stmt.reference?_mentions :
    ∀ statement : Stmt,
      statement.mentions.filterMap Mention.reference? = statement.references
  | .block statements => Stmt.reference?_mentionsOfAll statements
  | .classDecl _ _ methods => by
      simp [Stmt.mentions, Stmt.references, List.filterMap_cons,
        Routine.reference?_mentionsOfMethods methods]
  | .expression _ | .print _ => by simp [Stmt.mentions, Stmt.references]
  | .function routine => by
      simp [Stmt.mentions, Stmt.references, List.filterMap_cons,
        Routine.reference?_mentions routine]
  | .ifThen _ thenBranch none => by
      simp [Stmt.mentions, Stmt.references, Stmt.reference?_mentions thenBranch]
  | .ifThen _ thenBranch (some elseBranch) => by
      simp [Stmt.mentions, Stmt.references,
        Stmt.reference?_mentions thenBranch, Stmt.reference?_mentions elseBranch]
  | .returns _ _ => by
      simp [Stmt.mentions, Stmt.references, List.filterMap_cons, Mention.reference?]
  | .var _ _ => by
      simp [Stmt.mentions, Stmt.references, List.filterMap_cons]
  | .whileLoop _ body => by
      simp [Stmt.mentions, Stmt.references, Stmt.reference?_mentions body]

theorem Routine.reference?_mentions :
    ∀ routine : Routine, routine.mentions.filterMap Mention.reference? = routine.references
  | .mk _ _ body => by
      simp [Routine.mentions, Routine.references, Stmt.reference?_mentionsOfAll body]

theorem Stmt.reference?_mentionsOfAll :
    ∀ statements : List Stmt, (Stmt.mentionsOfAll statements).filterMap Mention.reference? =
      Stmt.referencesOfAll statements
  | [] => rfl
  | statement :: rest => by
      simp [Stmt.mentionsOfAll, Stmt.referencesOfAll, Stmt.reference?_mentions statement,
        Stmt.reference?_mentionsOfAll rest]

theorem Routine.reference?_mentionsOfMethods :
    ∀ methods : List Routine,
      (Routine.mentionsOfMethods methods).filterMap Mention.reference? =
        Routine.referencesOfAll methods
  | [] => rfl
  | method :: rest => by
      simp [Routine.mentionsOfMethods, Routine.referencesOfAll,
        Routine.reference?_mentions method, Routine.reference?_mentionsOfMethods rest]

end

end LoxLang
