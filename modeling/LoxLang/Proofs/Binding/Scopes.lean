import LoxLang.Proofs.Binding.Settled
import LoxLang.Proofs.Store.Frames

/-! # What scopes know

Entering a name changes what the scopes know about that name only. Between statements
every declaration is complete, and what classes bind is where their methods expect it.
-/

namespace LoxLang

namespace Scopes

variable {scopes : Scopes} {name other : String} {complete : Bool}

@[simp] theorem state?_nil (name : String) : state? [] name = none := rfl

theorem state?_cons (scope : Scope) (outer : Scopes) (name : String) :
    state? (scope :: outer) name = (scope.get? name).or (state? outer name) := by
  simp only [state?, List.findSome?_cons]
  cases scope.get? name <;> rfl

theorem distance?_cons (scope : Scope) (outer : Scopes) (name : String) :
    distance? (scope :: outer) name =
      if scope.contains name then some 0 else (distance? outer name).map (· + 1) := by
  simp [distance?, List.findIdx?_cons]

theorem isSome_state? (scopes : Scopes) (name : String) :
    (scopes.state? name).isSome = (scopes.distance? name).isSome := by
  induction scopes with
  | nil => rfl
  | cons scope outer induction =>
      simp only [state?_cons, distance?_cons, Option.isSome_or, induction,
        Bindings.contains]
      by_cases here : (scope.get? name).isSome
      · simp [here]
      · simp [here]

theorem distance?_enter (different : name ≠ other) :
    (scopes.enter name complete).distance? other = scopes.distance? other := by
  cases scopes with
  | nil => rfl
  | cons scope outer => simp [enter, distance?_cons, Bindings.contains_bind, different]

theorem state?_enter (different : name ≠ other) :
    (scopes.enter name complete).state? other = scopes.state? other := by
  cases scopes with
  | nil => rfl
  | cons scope outer => simp [enter, state?_cons, different]

theorem define_declare (scopes : Scopes) (name : String) :
    (scopes.declare name).define name = scopes.define name := by
  cases scopes with
  | nil => rfl
  | cons scope outer => simp only [declare, define, enter, Bindings.bind_bind]

theorem define_define (scopes : Scopes) (name : String) :
    (scopes.define name).define name = scopes.define name := by
  cases scopes with
  | nil => rfl
  | cons scope outer => simp only [define, enter, Bindings.bind_bind]

theorem foldl_define (names : List String) (scope : Scope) (outer : Scopes) :
    ∃ inner : Scope, names.foldl define (scope :: outer) = inner :: outer ∧
      ∀ name, inner.get? name = if name ∈ names then some true else scope.get? name := by
  induction names generalizing scope with
  | nil => exact ⟨scope, rfl, by simp⟩
  | cons first rest induction =>
      rcases induction (scope.bind first true) with ⟨inner, same, found⟩
      refine ⟨inner, same, fun name => ?_⟩
      rw [found, Bindings.get?_bind]
      by_cases isFirst : first = name
      · simp [isFirst]
      · simp [isFirst, Ne.symm isFirst]

theorem nest_eq (scopes : Scopes) (names : List String) :
    ∃ inner : Scope, scopes.nest names = inner :: scopes ∧
      ∀ name, inner.get? name = if name ∈ names then some true else none := by
  rcases foldl_define names Bindings.empty scopes with ⟨inner, same, found⟩
  exact ⟨inner, same, by simpa using found⟩

theorem distance?_nest (scopes : Scopes) (names : List String) (name : String) :
    (scopes.nest names).distance? name =
      if name ∈ names then some 0 else (scopes.distance? name).map (· + 1) := by
  rcases nest_eq scopes names with ⟨inner, same, found⟩
  rw [same, distance?_cons, Bindings.contains, found]
  by_cases member : name ∈ names <;> simp [member]

theorem state?_nest (scopes : Scopes) (names : List String) (name : String) :
    (scopes.nest names).state? name = if name ∈ names then some true
      else scopes.state? name := by
  rcases nest_eq scopes names with ⟨inner, same, found⟩
  rw [same, state?_cons, found]
  by_cases member : name ∈ names <;> simp [member]

theorem scopesAfter_nil (statement : Stmt) : statement.scopesAfter [] = [] := by
  rw [Stmt.scopesAfter]
  split <;> rfl

/-! ## Complete scopes -/

def Complete (scopes : Scopes) : Prop := ∀ name, scopes.state? name ≠ some false

/-- A declaration that is not complete is in the innermost scope, and not of a name that
classes bind. -/
def Usable (scopes : Scopes) : Prop :=
  ∀ name, scopes.state? name = some false → scopes.incompleteHere name ∧
    name ∉ reservedNames

theorem complete_nil : Complete [] := fun _ => nofun

theorem Complete.usable (known : scopes.Complete) : scopes.Usable :=
  fun name incomplete => absurd incomplete (known name)

theorem Usable.reserved {distance : Nat} (usable : scopes.Usable)
    (reserved : name ∈ reservedNames)
    (found : scopes.distance? name = some distance) : scopes.state? name = some true := by
  have known : (scopes.state? name).isSome := by
      rw [isSome_state?, found, Option.isSome_some]
  rcases Option.isSome_iff_exists.mp known with ⟨state, same⟩
  cases state with
  | true => exact same
  | false => exact absurd reserved (usable name same).2

theorem Complete.define (known : scopes.Complete) (name : String) :
    (scopes.define name).Complete := by
  intro other
  by_cases same : name = other
  · subst same
    cases scopes with
    | nil => nofun
    | cons scope outer => simp [Scopes.define, enter, state?_cons]
  · rw [Scopes.define, state?_enter same]
    exact known other

theorem Complete.nest (known : scopes.Complete) (names : List String) :
    (scopes.nest names).Complete := by
  intro name
  rw [state?_nest]
  split
  · simp
  · exact known name

theorem Complete.insideClass (known : scopes.Complete) (superclass : Option Occurrence) :
    (scopes.insideClass superclass).Complete := by
  cases superclass with
  | none => exact known.nest _
  | some superclass => exact (known.nest _).nest _

theorem Complete.scopesAfter (known : scopes.Complete) (statement : Stmt) :
    (statement.scopesAfter scopes).Complete := by
  rw [Stmt.scopesAfter]
  split
  · exact known.define _
  · exact known

theorem Complete.declare (known : scopes.Complete) (unreserved : name ∉ reservedNames) :
    (scopes.declare name).Usable := by
  intro other incomplete
  by_cases same : name = other
  · subst same
    cases scopes with
    | nil => simp [Scopes.declare, enter] at incomplete
    | cons scope outer => simpa [Scopes.declare, enter, incompleteHere] using unreserved
  · rw [Scopes.declare, state?_enter same] at incomplete
    exact absurd incomplete (known other)

/-! ## Scopes of classes -/

/-- What a class binds can be found inside of it, and `super` right around `this`. -/
structure Suits (enclosing : EnclosingClass) (scopes : Scopes) : Prop where
  this : enclosing ≠ .none → ∃ distance, scopes.distance? "this" = some distance
  super : enclosing = .derived →
    ∃ distance, scopes.distance? "super" = some (distance + 1) ∧
    scopes.distance? "this" = some distance

variable {enclosing : EnclosingClass}

theorem suits_none (scopes : Scopes) : Suits .none scopes :=
  ⟨fun inside => absurd rfl inside, nofun⟩

theorem Suits.enter (suits : Suits enclosing scopes) (unreserved : name ∉ reservedNames) :
    Suits enclosing (scopes.enter name complete) := by
  simp only [reservedNames, List.mem_cons, List.not_mem_nil, or_false,
    not_or] at unreserved
  constructor
  · rw [distance?_enter unreserved.1]
    exact suits.this
  · rw [distance?_enter unreserved.1, distance?_enter unreserved.2]
    exact suits.super

theorem Suits.nest (suits : Suits enclosing scopes) {names : List String}
    (unreserved : ∀ name ∈ names, name ∉ reservedNames) :
    Suits enclosing (scopes.nest names) := by
  have this : "this" ∉ names :=
    fun member => unreserved _ member (by simp [reservedNames])
  have super : "super" ∉ names :=
    fun member => unreserved _ member (by simp [reservedNames])
  constructor
  · intro inside
    rcases suits.this inside with ⟨distance, found⟩
    exact ⟨distance + 1, by simp [distance?_nest, this, found]⟩
  · intro derived
    rcases suits.super derived with ⟨distance, found, found'⟩
    exact ⟨distance + 1, by simp [distance?_nest, super, found],
      by simp [distance?_nest, this, found']⟩

theorem suits_insideClass (surroundings : Surroundings) (scopes : Scopes)
    (superclass : Option Occurrence) :
    Suits (surroundings.insideClass superclass).enclosingClass
      (scopes.insideClass superclass) := by
  cases superclass with
  | none => exact ⟨fun _ => ⟨0, by simp [insideClass, distance?_nest]⟩, nofun⟩
  | some superclass =>
      refine ⟨fun _ => ⟨0, by simp [insideClass, distance?_nest]⟩, fun _ => ⟨0, ?_, ?_⟩⟩
      · simp [insideClass, distance?_nest]
      · simp [insideClass, distance?_nest]

theorem Suits.scopesAfter (suits : Suits enclosing scopes) {statement : Stmt}
    (unreserved : ∀ name ∈ statement.declared?, name.lexeme ∉ reservedNames) :
    Suits enclosing (statement.scopesAfter scopes) := by
  rw [Stmt.scopesAfter]
  split
  case h_1 name declared => exact suits.enter (unreserved name declared)
  case h_2 => exact suits

end Scopes

end LoxLang
