import LoxLang.Proofs.Comparison.Values

/-! # What corresponds to itself

If a value corresponds to itself, so do its closures. It then corresponds to itself in
every other way in which its closures do.
-/

namespace LoxLang

theorem rel_itself {α : Type} {related weaker : α → α → Prop} {option : Option α}
    (same : Option.Rel related option option)
    (implies : ∀ value, related value value → weaker value value) :
    Option.Rel weaker option option := by
  cases same with
  | none => exact .none
  | some holds => exact .some (implies _ holds)

theorem Bindings.Related.itself {α : Type} {related weaker : α → α → Prop}
    {bindings : Bindings α} (same : Related related bindings bindings)
    (implies : ∀ value, related value value → weaker value value) :
    Related weaker bindings bindings := by
  rw [Related, List.forall₂_same] at same ⊢
  exact fun entry member => ⟨rfl, implies _ (same entry member).2⟩

section Closures

variable {Home : Type} {functions methods functions' methods' :
  Closure Home → Closure Home → Prop}

theorem Class.Related.itself {description : Class Home}
    (same : Class.Related methods description description)
    (implies : ∀ closure, methods closure closure → methods' closure closure) :
    Class.Related methods' description description := by
  suffices every : ∀ {other : Class Home}, Class.Related methods description other →
      other = description → Class.Related methods' description other from every same rfl
  intro other same equal
  induction same with
  | root tables =>
      cases equal
      exact .root (tables.itself implies)
  | derived superclasses tables induction =>
      cases equal
      exact .derived (induction superclasses rfl) (tables.itself implies)

theorem Value.Related.itself {value : Value Home}
    (same : Value.Related functions methods value value)
    (onFunctions : ∀ closure, functions closure closure → functions' closure closure)
    (onMethods : ∀ closure, methods closure closure → methods' closure closure) :
    Value.Related functions' methods' value value := by
  cases same with
  | nil => exact .nil
  | bool value => exact .bool value
  | number value => exact .number value
  | string value => exact .string value
  | function closures => exact .function (onFunctions _ closures)
  | native total => exact .native total
  | classValue classes => exact .classValue (classes.itself onMethods)
  | object classes => exact .object (classes.itself onMethods)

end Closures

end LoxLang
