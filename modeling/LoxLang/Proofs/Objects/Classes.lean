import LoxLang.Machine.Calls
import LoxLang.Proofs.Objects.Methods
import LoxLang.Proofs.Store.Links

/-! # Classes and their declarations

A class is made from what is declared about it, after its superclass. So it has the method
that is declared for the nearest class, from itself upward, which defines one of the name.
This also holds for the initializer, from which the number of arguments is taken with which
the class is called.
-/

namespace LoxLang

theorem getElem?_concat_cases {α : Type} {items : List α} {last item : α} {number : Nat}
    (found : (items ++ [last])[number]? = some item) :
    items[number]? = some item ∨ number = items.length ∧ item = last := by
  rw [List.getElem?_append] at found
  split at found
  case isTrue => exact .inl found
  case isFalse new =>
      rw [List.getElem?_singleton] at found
      split at found
      case isTrue isLast =>
          have same := Nat.le_antisymm (Nat.sub_eq_zero_iff_le.mp isLast) (Nat.le_of_not_lt new)
          exact .inr ⟨same, (Option.some.inj found).symm⟩
      case isFalse => cases found

/-! ## How classes are made -/

namespace Action

def makeClass (name : String) (superclass : Option Class) (frame : FrameId)
    (methods : List Routine) : Action Class := do
  let identity ← newIdentity
  pure ⟨identity, name, superclass, Class.methodTable frame methods⟩

theorem declareClass_eq (name : Occurrence) (clause : Option Occurrence)
    (methods : List Routine) :
    declareClass name clause methods = (do
      let superclass ← superclass clause
      define name.lexeme .nil
      let frame ← methodFrame superclass
      let description ← makeClass name.lexeme superclass frame methods
      define name.lexeme (.classValue description)) :=
  rfl

end Action

namespace Objects

/-! ## Declarations -/

/-- How a class was declared. Its superclass is known by its number among all classes. -/
structure Declaration where
  name : String
  superclass : Option Nat
  frame : FrameId
  methods : List Routine

def Defines (declarations : List Declaration) (name : String) (number : Nat) : Prop :=
  ∃ declaration, declarations[number]? = some declaration ∧
    ∃ routine ∈ declaration.methods, routine.name.lexeme = name

def superclass? (declarations : List Declaration) (number : Nat) : Option Nat :=
  declarations[number]?.bind (·.superclass)

/-- A class has the method that the nearest class defines, from itself upward, and no
method if there is no such class. -/
inductive HasMethod (declarations : List Declaration) (number : Nat) (name : String) :
    Option Closure → Prop
  | defined {steps home : Nat} {declaration : Declaration} {routine : Routine}
      (nearest : Nearest (superclass? declarations) (Defines declarations name)
        number steps home)
      (declared : declarations[home]? = some declaration)
      (last : Routine.lastNamed? declaration.methods name = some routine) :
      HasMethod declarations number name
        (some ⟨routine, declaration.frame, routine.isNamedInit⟩)
  | undefined
      (none_ : ∀ steps above, Linked (superclass? declarations) number steps above →
        ¬Defines declarations name above) :
      HasMethod declarations number name none

structure Declaration.Describes (declaration : Declaration) (classes : List Class)
    (description : Class) : Prop where
  name : description.name = declaration.name
  superclass : description.superclass = declaration.superclass.bind (classes[·]?)
  methods : description.methods =
    Class.methodTable declaration.frame declaration.methods

theorem Declaration.Describes.concat {declaration : Declaration} {classes : List Class}
    {description : Class} (describes : declaration.Describes classes description)
    (earlier : ∀ parent ∈ declaration.superclass, parent < classes.length) (later : Class) :
    declaration.Describes (classes ++ [later]) description where
  name := describes.name
  superclass := by
    rw [describes.superclass]
    apply Option.bind_congr
    intro parent isParent
    rw [List.getElem?_append_left (earlier parent isParent)]
  methods := describes.methods

structure Declared (declarations : List Declaration) (classes : List Class) : Prop where
  length : classes.length = declarations.length
  earlier : ∀ number parent, superclass? declarations number = some parent → parent < number
  describes : ∀ (number : Nat) declaration description,
    declarations[number]? = some declaration → classes[number]? = some description →
    declaration.Describes classes description

section Methods

variable {declarations : List Declaration} {classes : List Class} {number : Nat}
  {name : String} {description : Class} {method? : Option Closure}

theorem exists_hasMethod (declarations : List Declaration) (number : Nat) (name : String) :
    ∃ method?, HasMethod declarations number name method? := by
  rcases nearest_or_none (superclass? declarations) (Defines declarations name) number with
    ⟨steps, home, nearest⟩ | none_
  · rcases nearest.holds with ⟨declaration, declared, routine, member, isName⟩
    cases last : Routine.lastNamed? declaration.methods name with
    | none => exact absurd isName ((Routine.lastNamed?_eq_none_iff _ _).mp last _ member)
    | some routine => exact ⟨_, .defined nearest declared last⟩
  · exact ⟨none, .undefined none_⟩

namespace Declared

variable (declared : Declared declarations classes)

include declared

theorem exists_declaration (made : classes[number]? = some description) :
    ∃ declaration, declarations[number]? = some declaration := by
  have exists_ := (List.getElem?_eq_some_iff.mp made).1
  rw [declared.length] at exists_
  exact ⟨_, List.getElem?_eq_getElem exists_⟩

theorem exists_class (exists_ : number < declarations.length) :
    ∃ description, classes[number]? = some description := by
  rw [← declared.length] at exists_
  exact ⟨_, List.getElem?_eq_getElem exists_⟩

theorem findMethod?_eq {declaration : Declaration}
    (isDeclared : declarations[number]? = some declaration)
    (made : classes[number]? = some description) (name : String) :
    description.findMethod? name =
      ((Routine.lastNamed? declaration.methods name).map fun routine =>
          ⟨routine, declaration.frame, routine.isNamedInit⟩).or
        ((declaration.superclass.bind (classes[·]?)).bind (·.findMethod? name)) := by
  have describes := declared.describes number declaration description isDeclared made
  rw [← Class.get?_methodTable, ← describes.methods, ← describes.superclass]
  cases description
  exact Class.findMethod?_mk name

theorem findMethod?_of_not_defines {declaration : Declaration}
    (isDeclared : declarations[number]? = some declaration)
    (made : classes[number]? = some description) (lacks : ¬Defines declarations name number) :
    description.findMethod? name =
      (declaration.superclass.bind (classes[·]?)).bind (·.findMethod? name) := by
  have notNamed : Routine.lastNamed? declaration.methods name = none := by
    rw [Routine.lastNamed?_eq_none_iff]
    intro routine member isName
    exact lacks ⟨declaration, isDeclared, routine, member, isName⟩
  rw [declared.findMethod?_eq isDeclared made, notNamed]
  rfl

theorem findMethod?_of_nearest {steps home : Nat} {declaration : Declaration}
    {routine : Routine} (made : classes[number]? = some description)
    (nearest : Nearest (superclass? declarations) (Defines declarations name)
      number steps home)
    (isDeclared : declarations[home]? = some declaration)
    (last : Routine.lastNamed? declaration.methods name = some routine) :
    description.findMethod? name =
      some ⟨routine, declaration.frame, routine.isNamedInit⟩ := by
  induction steps generalizing number description with
  | zero =>
      rcases nearest with ⟨linked, -, -⟩
      cases linked
      rw [declared.findMethod?_eq isDeclared made, last]
      rfl
  | succ steps induction =>
      have lacks := nearest.first 0 (Nat.succ_pos steps) number (.self number)
      rcases nearest.exists_next lacks with ⟨parent, fewer, isParent, ⟨⟩, nearest⟩
      rcases declared.exists_declaration made with ⟨own, isOwn⟩
      have superclass : own.superclass = some parent := by
        rw [superclass?, isOwn] at isParent
        exact isParent
      have earlier := declared.earlier number parent isParent
      have parentExists : parent < declarations.length :=
        Nat.lt_trans earlier (List.getElem?_eq_some_iff.mp isOwn).1
      rcases declared.exists_class parentExists with ⟨above, isAbove⟩
      rw [declared.findMethod?_of_not_defines isOwn made lacks, superclass,
        Option.bind_some, isAbove, Option.bind_some]
      exact induction isAbove nearest

theorem findMethod?_of_none (made : classes[number]? = some description)
    (none_ : ∀ steps above, Linked (superclass? declarations) number steps above →
      ¬Defines declarations name above) :
    description.findMethod? name = none := by
  induction number using Nat.strongRecOn generalizing description with
  | ind number induction =>
      rcases declared.exists_declaration made with ⟨own, isOwn⟩
      rw [declared.findMethod?_of_not_defines isOwn made (none_ 0 number (.self number))]
      cases superclass : own.superclass with
      | none => rfl
      | some parent =>
          have isParent : superclass? declarations number = some parent := by
            rw [superclass?, isOwn]
            exact superclass
          rw [Option.bind_some]
          cases isAbove : classes[parent]? with
          | none => rfl
          | some above =>
              exact induction parent (declared.earlier number parent isParent) isAbove
                fun steps further linked => none_ (steps + 1) further (.link isParent linked)

theorem findMethod? (made : classes[number]? = some description)
    (has : HasMethod declarations number name method?) :
    description.findMethod? name = method? := by
  cases has with
  | defined nearest isDeclared last =>
      exact declared.findMethod?_of_nearest made nearest isDeclared last
  | undefined none_ => exact declared.findMethod?_of_none made none_

theorem arity (made : classes[number]? = some description)
    (has : HasMethod declarations number "init" method?) :
    description.arity = method?.elim 0 (·.arity) := by
  rw [Class.arity, Class.initializer?, declared.findMethod? made has]
  cases method? <;> rfl

theorem construct (made : classes[number]? = some description)
    (has : HasMethod declarations number "init" method?) (run : BodyRunner)
    (arguments : List Value) :
    Action.construct run description arguments = (do
      let object ← Action.newObject description
      match method? with
      | some method => do
        let initializer ← Action.bindThis method object
        let _ ← Action.callClosure run initializer arguments
        pure object
      | none => pure object) := by
  have found := declared.findMethod? made has
  cases method? <;> simp only [Action.construct, Class.initializer?, found]

theorem concat {declaration : Declaration}
    (earlier : ∀ parent ∈ declaration.superclass, parent < declarations.length)
    (describes : declaration.Describes classes description) :
    Declared (declarations ++ [declaration]) (classes ++ [description]) where
  length := by rw [List.length_append, List.length_append, declared.length]; rfl
  earlier number parent isParent := by
    rcases Option.bind_eq_some_iff.mp isParent with ⟨other, isDeclared, isSuperclass⟩
    rcases getElem?_concat_cases isDeclared with old | ⟨rfl, rfl⟩
    · apply declared.earlier number parent
      exact Option.bind_eq_some_iff.mpr ⟨other, old, isSuperclass⟩
    · exact earlier parent isSuperclass
  describes number other made isDeclared isMade := by
    rcases getElem?_concat_cases isDeclared with old | ⟨rfl, rfl⟩
    · have before : number < declarations.length := (List.getElem?_eq_some_iff.mp old).1
      rw [List.getElem?_append_left (declared.length ▸ before)] at isMade
      apply (declared.describes number other made old isMade).concat
      intro parent isParent
      have parentBefore := declared.earlier number parent
        (Option.bind_eq_some_iff.mpr ⟨other, old, isParent⟩)
      exact declared.length ▸ Nat.lt_trans parentBefore before
    · rw [← declared.length, List.getElem?_concat_length] at isMade
      cases isMade
      exact describes.concat (declared.length ▸ earlier) _

end Declared

end Methods

end Objects

end LoxLang
