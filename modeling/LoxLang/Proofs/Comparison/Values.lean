import Mathlib.Data.List.Forall2
import LoxLang.Value.Operators
import LoxLang.Value.Text

/-! # Values that differ in their closures only

Two values correspond if they are built alike and their closures correspond. What
corresponds as a closure is a parameter, and it is another one for the methods of classes,
which are not yet bound to an object. Operators and texts do not look into closures, so
they cannot tell such values apart.
-/

namespace LoxLang

theorem rel_cases {α β : Type} {related : α → β → Prop} {left : Option α}
    {right : Option β} (same : Option.Rel related left right) :
    (left = none ∧ right = none) ∨
      ∃ first second, left = some first ∧ right = some second ∧ related first second := by
  cases same with
  | none => exact .inl ⟨rfl, rfl⟩
  | some holds => exact .inr ⟨_, _, rfl, rfl, holds⟩

theorem rel_imp {α β : Type} {related weaker : α → β → Prop} {left : Option α}
    {right : Option β} (same : Option.Rel related left right)
    (implies : ∀ first second, related first second → weaker first second) :
    Option.Rel weaker left right := by
  cases same with
  | none => exact .none
  | some holds => exact .some (implies _ _ holds)

/-! ## Bindings -/

namespace Bindings

variable {α β : Type}

def Related (related : α → β → Prop) (left : Bindings α) (right : Bindings β) : Prop :=
  List.Forall₂ (fun first second => first.1 = second.1 ∧ related first.2 second.2)
    left.entries right.entries

variable {related : α → β → Prop} {left : Bindings α} {right : Bindings β}

theorem Related.empty : Related related Bindings.empty Bindings.empty := List.Forall₂.nil

theorem Related.imp {weaker : α → β → Prop} (same : Related related left right)
    (implies : ∀ first second, related first second → weaker first second) :
    Related weaker left right :=
  List.Forall₂.imp (fun _ _ both => ⟨both.1, implies _ _ both.2⟩) same

theorem Related.get? (same : Related related left right) (name : String) :
    Option.Rel related (left.get? name) (right.get? name) := by
  rcases left with ⟨left⟩
  rcases right with ⟨right⟩
  simp only [Related] at same
  simp only [Bindings.get?]
  induction same with
  | nil => exact .none
  | @cons first second _ _ both _ induction =>
      rcases first with ⟨key, value⟩
      rcases second with ⟨key', value'⟩
      obtain ⟨rfl, values⟩ : key = key' ∧ related value value' := both
      rw [lookupIn, lookupIn]
      split
      · exact .some values
      · exact induction

theorem Related.contains (same : Related related left right) (name : String) :
    left.contains name = right.contains name := by
  rw [Bindings.contains, Bindings.contains]
  rcases rel_cases (same.get? name) with ⟨left, right⟩ | ⟨_, _, left, right, _⟩ <;>
    simp [left, right]

theorem Related.bind (same : Related related left right) (name : String) {first : α}
    {second : β} (values : related first second) :
    Related related (left.bind name first) (right.bind name second) := by
  rcases left with ⟨left⟩
  rcases right with ⟨right⟩
  simp only [Related] at same
  simp only [Related, Bindings.bind]
  induction same with
  | nil => exact .cons ⟨rfl, values⟩ .nil
  | @cons first' second' _ _ both rest induction =>
      rcases first' with ⟨key, value⟩
      rcases second' with ⟨key', value'⟩
      obtain ⟨rfl, values'⟩ : key = key' ∧ related value value' := both
      rw [bindIn, bindIn]
      split
      · exact .cons ⟨rfl, values⟩ rest
      · exact .cons ⟨rfl, values'⟩ induction

theorem Related.map_sorted {γ : Type} (same : Related related left right) (first : α → γ)
    (second : β → γ)
    (agree : ∀ value value', related value value' → first value = second value') :
    (left.sorted.map fun (name, value) => (name, first value)) =
      right.sorted.map fun (name, value) => (name, second value) := by
  have maps : (left.entries.map fun (name, value) => (name, first value)) =
      right.entries.map fun (name, value) => (name, second value) := by
    rcases left with ⟨left⟩
    rcases right with ⟨right⟩
    simp only [Related] at same
    induction same with
    | nil => rfl
    | @cons first' second' _ _ both _ induction =>
        rcases first' with ⟨key, value⟩
        rcases second' with ⟨key', value'⟩
        obtain ⟨rfl, values⟩ : key = key' ∧ related value value' := both
        simp only [List.map_cons, agree _ _ values]
        exact congrArg _ induction
  rw [sorted, sorted,
    List.map_mergeSort (s := fun (left right : String × γ) => decide (left.1 ≤ right.1))
      (by simp),
    List.map_mergeSort (s := fun (left right : String × γ) => decide (left.1 ≤ right.1))
      (by simp),
    maps]

end Bindings

/-! ## Classes and values -/

/-- The function has an answer whenever it is given as many arguments as it takes. -/
def Native.IsTotal (native : Native) : Prop :=
  match native.answer with
  | .clock | .constant _ => True
  | .argument index => index < native.arity
  | .computed compute =>
    ∀ seen : List (Option Literal), seen.length = native.arity → (compute seen).isSome

namespace Native.IsTotal

variable {builtIn : Native}

theorem argument {index : Nat} (total : builtIn.IsTotal)
    (given : builtIn.answer = .argument index) : index < builtIn.arity := by
  rwa [IsTotal, given] at total

theorem computed {compute : List (Option Literal) → Option Literal} (total : builtIn.IsTotal)
    (given : builtIn.answer = .computed compute) {seen : List (Option Literal)}
    (count : seen.length = builtIn.arity) : ∃ value, compute seen = some value := by
  rw [IsTotal, given] at total
  exact Option.isSome_iff_exists.mp (total seen count)

end Native.IsTotal

section Related

variable {Home Home' : Type}

inductive Class.Related (methods : Closure Home → Closure Home' → Prop) :
    Class Home → Class Home' → Prop
  | root {identity : Nat} {name : String} {table : Bindings (Closure Home)}
      {table' : Bindings (Closure Home')}
      (tables : Bindings.Related methods table table') :
      Class.Related methods ⟨identity, name, none, table⟩ ⟨identity, name, none, table'⟩
  | derived {identity : Nat} {name : String} {superclass : Class Home}
      {superclass' : Class Home'} {table : Bindings (Closure Home)}
      {table' : Bindings (Closure Home')}
      (superclasses : Class.Related methods superclass superclass')
      (tables : Bindings.Related methods table table') :
      Class.Related methods ⟨identity, name, some superclass, table⟩
        ⟨identity, name, some superclass', table'⟩

/-- Values alike down to their closures: functions correspond as `functions` says, and
methods that are not bound to an object as `methods` says. -/
inductive Value.Related (functions methods : Closure Home → Closure Home' → Prop) :
    Value Home → Value Home' → Prop
  | nil : Value.Related functions methods .nil .nil
  | bool (value : Bool) : Value.Related functions methods (.bool value) (.bool value)
  | number (value : Float) :
      Value.Related functions methods (.number value) (.number value)
  | string (value : String) :
      Value.Related functions methods (.string value) (.string value)
  | function {identity : Nat} {closure : Closure Home} {closure' : Closure Home'}
      (closures : functions closure closure') :
      Value.Related functions methods (.function identity closure)
        (.function identity closure')
  | native {builtIn : Native} (total : builtIn.IsTotal) :
      Value.Related functions methods (.native builtIn) (.native builtIn)
  | classValue {description : Class Home} {description' : Class Home'}
      (classes : Class.Related methods description description') :
      Value.Related functions methods (.classValue description) (.classValue description')
  | object {identity : Nat} {description : Class Home} {description' : Class Home'}
      (classes : Class.Related methods description description') :
      Value.Related functions methods (.object identity description)
        (.object identity description')

variable {functions methods : Closure Home → Closure Home' → Prop}

namespace Class.Related

variable {description : Class Home} {description' : Class Home'}

theorem imp {weaker : Closure Home → Closure Home' → Prop}
    (same : Class.Related methods description description')
    (implies : ∀ closure closure', methods closure closure' → weaker closure closure') :
    Class.Related weaker description description' := by
  induction same with
  | root tables => exact .root (tables.imp implies)
  | derived _ tables superclasses => exact .derived superclasses (tables.imp implies)

theorem identity (same : Class.Related methods description description') :
    description.identity = description'.identity := by
  cases same <;> rfl

theorem name (same : Class.Related methods description description') :
    description.name = description'.name := by
  cases same <;> rfl

theorem findMethod? (same : Class.Related methods description description')
    (name : String) :
    Option.Rel methods (description.findMethod? name)
      (description'.findMethod? name) := by
  induction same with
  | root tables =>
      simp only [Class.findMethod?, Class.findDefinition?]
      rcases rel_cases (tables.get? name) with
          ⟨left, right⟩ | ⟨_, _, left, right, methods⟩ <;>
        rw [left, right]
      · exact .none
      · exact .some methods
  | derived _ tables superclasses =>
      simp only [Class.findMethod?, Class.findDefinition?] at superclasses ⊢
      rcases rel_cases (tables.get? name) with
          ⟨left, right⟩ | ⟨_, _, left, right, methods⟩ <;>
        rw [left, right]
      · exact superclasses
      · exact .some methods

end Class.Related

namespace Value.Related

variable {value other : Value Home} {value' other' : Value Home'}

theorem imp {weakerFunctions weakerMethods : Closure Home → Closure Home' → Prop}
    (same : Value.Related functions methods value value')
    (onFunctions : ∀ closure closure', functions closure closure' →
      weakerFunctions closure closure')
    (onMethods : ∀ closure closure', methods closure closure' →
      weakerMethods closure closure') :
    Value.Related weakerFunctions weakerMethods value value' := by
  cases same with
  | nil => exact .nil
  | bool value => exact .bool value
  | number value => exact .number value
  | string value => exact .string value
  | function closures => exact .function (onFunctions _ _ closures)
  | native total => exact .native total
  | classValue classes => exact .classValue (classes.imp onMethods)
  | object classes => exact .object (classes.imp onMethods)

theorem literal?_eq (same : Value.Related functions methods value value') :
    value.literal? = value'.literal? := by
  cases same <;> rfl

theorem map_literal?_eq {values : List (Value Home)} {values' : List (Value Home')}
    (same : List.Forall₂ (Value.Related functions methods) values values') :
    values.map Value.literal? = values'.map Value.literal? := by
  induction same with
  | nil => rfl
  | cons first _ induction => rw [List.map_cons, List.map_cons, first.literal?_eq, induction]

theorem literal (literal : Literal) :
    Value.Related functions methods literal.value literal.value := by
  cases literal <;> constructor

theorem isTruthy (same : Value.Related functions methods value value') :
    value.isTruthy = value'.isTruthy := by
  cases same <;> rfl

theorem same (left : Value.Related functions methods value value')
    (right : Value.Related functions methods other other') :
    value.same other = value'.same other' := by
  cases left <;> cases right <;> simp only [Value.same]
  rename_i left _ _ right
  rw [left.identity, right.identity]

theorem text (same : Value.Related functions methods value value')
    (names : ∀ closure closure', functions closure closure' →
      closure.routine.name.lexeme = closure'.routine.name.lexeme) :
    value.text = value'.text := by
  cases same with
  | nil | number | string | native => rfl
  | bool value => cases value <;> rfl
  | function closures => simp only [Value.text, names _ _ closures]
  | classValue classes => exact classes.name
  | object classes => simp only [Value.text, classes.name]

theorem arity? (same : Value.Related functions methods value value')
    (onFunctions : ∀ closure closure', functions closure closure' →
      closure.arity = closure'.arity)
    (onMethods : ∀ closure closure', methods closure closure' →
      closure.arity = closure'.arity) :
    value.arity? = value'.arity? := by
  cases same with
  | nil | bool | number | string | native | object => rfl
  | function closures => simp only [Value.arity?, onFunctions _ _ closures]
  | @classValue description description' classes =>
      simp only [Value.arity?, Class.arity, Class.initializer?]
      rcases rel_cases (classes.findMethod? "init") with
          ⟨left, right⟩ | ⟨_, _, left, right, related⟩ <;> rw [left, right]
      simp only [onMethods _ _ related]

end Value.Related

/-! ## Operators -/

inductive Related.Result (related : Value Home → Value Home' → Prop) :
    Except OperandFault (Value Home) → Except OperandFault (Value Home') → Prop
  | ok {value : Value Home} {value' : Value Home'} (values : related value value') :
      Related.Result related (.ok value) (.ok value')
  | error (fault : OperandFault) : Related.Result related (.error fault) (.error fault)

variable {left right : Value Home} {left' right' : Value Home'}

private theorem combine_related {operation : Float → Float → Value Home}
    {operation' : Float → Float → Value Home'}
    (results : ∀ first second,
      Value.Related functions methods (operation first second) (operation' first second))
    (lefts : Value.Related functions methods left left')
    (rights : Value.Related functions methods right right') :
    Related.Result (Value.Related functions methods) (left.combine operation right)
      (left'.combine operation' right') := by
  cases lefts <;> first
    | exact .error _
    | cases rights <;> first
      | exact .error _
      | exact .ok (results _ _)

theorem BinaryOperator.apply_related (operator : BinaryOperator)
    (lefts : Value.Related functions methods left left')
    (rights : Value.Related functions methods right right') :
    Related.Result (Value.Related functions methods) (operator.apply left right)
      (operator.apply left' right') := by
  cases operator with
  | equal =>
      simp only [BinaryOperator.apply, lefts.same rights]
      exact .ok (.bool _)
  | notEqual =>
      simp only [BinaryOperator.apply, lefts.same rights]
      exact .ok (.bool _)
  | greater | greaterEqual | less | lessEqual =>
      exact combine_related (fun _ _ => .bool _) lefts rights
  | subtract | multiply | divide =>
    exact combine_related (fun _ _ => .number _) lefts rights
  | add =>
      simp only [BinaryOperator.apply]
      cases lefts <;> first
        | exact .error _
        | cases rights <;> first
          | exact .error _
          | exact .ok (.number _)
          | exact .ok (.string _)

theorem UnaryOperator.apply_related (operator : UnaryOperator)
    (rights : Value.Related functions methods right right') :
    Related.Result (Value.Related functions methods) (operator.apply right)
      (operator.apply right') := by
  cases operator with
  | not =>
      simp only [UnaryOperator.apply, rights.isTruthy]
      exact .ok (.bool _)
  | negate =>
      cases rights <;> first
        | exact .error _
        | exact .ok (.number _)

theorem LogicalOperator.decidedBy_related (operator : LogicalOperator)
    (lefts : Value.Related functions methods left left') :
    operator.decidedBy left = operator.decidedBy left' := by
  cases operator <;> simp only [LogicalOperator.decidedBy, lefts.isTruthy]

end Related

end LoxLang
