/-!
# Named values in order of first binding

`Bindings α` is what a frame, an object, a class body and a scope have in common: at most
one value for a name, and the names listed in the order in which each was first bound.
Binding a name again replaces its value and keeps its position.
-/

namespace LoxLang

/-- Names with one value each, in order of first binding. -/
structure Bindings (α : Type) where
  entries : List (String × α) := []

namespace Bindings

def lookupIn (name : String) : List (String × α) → Option α
  | [] => none
  | (key, value) :: rest => if key = name then some value else lookupIn name rest

/-- Replaces the value found first under `name`, or adds the pair at the end. -/
def bindIn (name : String) (value : α) : List (String × α) → List (String × α)
  | [] => [(name, value)]
  | (key, old) :: rest =>
    if key = name then (key, value) :: rest else (key, old) :: bindIn name value rest

def empty : Bindings α := ⟨[]⟩

def get? (bindings : Bindings α) (name : String) : Option α :=
  lookupIn name bindings.entries

def bind (bindings : Bindings α) (name : String) (value : α) : Bindings α :=
  ⟨bindIn name value bindings.entries⟩

def contains (bindings : Bindings α) (name : String) : Bool :=
  (bindings.get? name).isSome

def names (bindings : Bindings α) : List String :=
  bindings.entries.map (·.1)

def sorted (bindings : Bindings α) : List (String × α) :=
  bindings.entries.mergeSort fun left right => decide (left.1 ≤ right.1)

private theorem lookupIn_bindIn (name other : String) (value : α)
    (entries : List (String × α)) :
    lookupIn other (bindIn name value entries) =
      if name = other then some value else lookupIn other entries := by
  induction entries with
  | nil => simp [bindIn, lookupIn]
  | cons entry rest induction =>
    rcases entry with ⟨key, old⟩
    by_cases sameKey : key = name
    · subst sameKey
      by_cases asked : key = other <;> simp [bindIn, lookupIn, asked]
    · by_cases asked : key = other
      · subst asked
        simp [bindIn, lookupIn, sameKey, Ne.symm sameKey]
      · simp [bindIn, lookupIn, sameKey, asked, induction]

@[simp] theorem get?_empty (name : String) : (empty : Bindings α).get? name = none := rfl

@[simp] theorem get?_bind (bindings : Bindings α) (name other : String) (value : α) :
    (bindings.bind name value).get? other =
      if name = other then some value else bindings.get? other :=
  lookupIn_bindIn name other value bindings.entries

end Bindings

end LoxLang
