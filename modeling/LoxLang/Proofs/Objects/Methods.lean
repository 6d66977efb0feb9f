import LoxLang.Value.Basic
import Mathlib.Data.List.Induction

/-! # Methods of classes

Of the methods to which a class body gives one name, the last one counts. Methods that it
does not define are those of the superclass.
-/

namespace LoxLang

/-! ## Class bodies -/

def Routine.lastNamed? (routines : List Routine) (name : String) : Option Routine :=
  (routines.filter (·.name.lexeme = name)).getLast?

theorem Routine.lastNamed?_eq_none_iff (routines : List Routine) (name : String) :
    lastNamed? routines name = none ↔ ∀ routine ∈ routines, routine.name.lexeme ≠ name := by
  simp [lastNamed?]

theorem Class.get?_methodTable {Home : Type} (frame : Home) (routines : List Routine)
    (name : String) :
    (methodTable frame routines).get? name =
      (Routine.lastNamed? routines name).map
        fun routine => ⟨routine, frame, routine.isNamedInit⟩ := by
  induction routines using List.reverseRecOn with
  | nil => rfl
  | append_singleton routines routine induction =>
      rw [methodTable] at induction ⊢
      rw [List.foldl_append, List.foldl_cons, List.foldl_nil, Bindings.get?_bind, induction,
        Routine.lastNamed?, Routine.lastNamed?, List.filter_append, List.getLast?_append]
      by_cases same : routine.name.lexeme = name <;> simp [same]

theorem Class.forall_methodTable {frame : FrameId} {methods : List Routine}
    {holds : String → Closure → Prop}
    (every : ∀ routine ∈ methods,
      holds routine.name.lexeme ⟨routine, frame, routine.isNamedInit⟩) {name : String}
    {method : Closure} (found : (methodTable frame methods).get? name = some method) :
    holds name method := by
  rw [get?_methodTable] at found
  rcases Option.map_eq_some_iff.mp found with ⟨routine, last, rfl⟩
  rcases List.mem_filter.mp (List.mem_of_getLast? last) with ⟨member, named⟩
  exact of_decide_eq_true named ▸ every routine member

/-! ## Superclasses -/

theorem Class.findMethod?_mk {identity : Nat} {name : String} {superclass : Option Class}
    {methods : Bindings Closure} (asked : String) :
    Class.findMethod? ⟨identity, name, superclass, methods⟩ asked =
      (methods.get? asked).or (superclass.bind (·.findMethod? asked)) := by
  cases superclass with
  | none =>
      simp only [Class.findMethod?, Class.findDefinition?]
      cases methods.get? asked <;> rfl
  | some parent =>
      simp only [Class.findMethod?, Class.findDefinition?]
      cases methods.get? asked <;> rfl

theorem Class.forall_mk {identity : Nat} {name : String} {superclass : Option Class}
    {methods : Bindings Closure} {holds : String → Closure → Prop}
    (own : ∀ name method, methods.get? name = some method → holds name method)
    (inherited : ∀ parent ∈ superclass, ∀ name method,
      parent.findMethod? name = some method → holds name method) {asked : String}
    {method : Closure}
    (found : findMethod? ⟨identity, name, superclass, methods⟩ asked = some method) :
    holds asked method := by
  rw [findMethod?_mk, Option.or_eq_some_iff] at found
  rcases found with here | ⟨-, above⟩
  · exact own asked method here
  · obtain ⟨parent, isParent, found⟩ := Option.bind_eq_some_iff.mp above
    exact inherited parent isParent asked method found

end LoxLang
