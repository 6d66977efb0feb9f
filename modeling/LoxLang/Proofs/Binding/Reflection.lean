import Mathlib.Data.List.Forall2
import LoxLang.Proofs.Binding.Order
import LoxLang.Proofs.Binding.Scopes

/-! # Scopes reflect regions

While a program is walked through, its scopes are entered and left, and names are declared
in them one after the other. Seen from a word in the program, the scopes at that moment
reflect the regions around the word: each contains what the region knows at that place.
The scopes at the start of a region reflect it once the declarations in front of the word
have been made.
-/

namespace LoxLang

namespace Region

def surroundings (regions : List Region) : Surroundings where
  routine :=
    match regions.findSome? routine? with
    | none => .none
    | some (.function, _) => .function
    | some (.method, method) => if method.isNamedInit then .initializer else .method
  enclosingClass :=
    match regions.findSome? derived? with
    | none => .none
    | some false => .plain
    | some true => .derived

variable (regions : List Region)

theorem surroundings_ofClass (superclass : Option Occurrence) :
    surroundings (ofClass superclass ++ regions) =
      (surroundings regions).insideClass superclass := by
  cases superclass <;> rfl

def Unreserved (regions : List Region) : Prop :=
  ∀ region ∈ regions, ∀ declaration ∈ region.declared,
    declaration.lexeme ∉ reservedNames

variable {regions}

theorem Unreserved.cons {region : Region} (unreserved : Unreserved regions)
    (names : ∀ name ∈ region.declared, name.lexeme ∉ reservedNames) :
    Unreserved (region :: regions) :=
  List.forall_mem_cons.mpr ⟨names, unreserved⟩

theorem Unreserved.ofClass (unreserved : Unreserved regions)
    (superclass : Option Occurrence) :
    Unreserved (Region.ofClass superclass ++ regions) := by
  cases superclass with
  | none => exact unreserved.cons (List.forall_mem_nil _)
  | some => exact (unreserved.cons (List.forall_mem_nil _)).cons (List.forall_mem_nil _)

theorem Unreserved.not_knows_this (unreserved : Unreserved regions)
    (outside : regions.findSome? derived? = none) (place : Nat) :
    ∀ region ∈ regions, ¬region.Knows "this" place := by
  intro region member knows
  rcases knows with given | ⟨declaration, declared, lexeme, -⟩
  · cases region with
    | methods derived =>
        exact absurd (List.findSome?_eq_none_iff.mp outside _ member) nofun
    | block | routine | heritage => simp [given?] at given
  · exact unreserved region member declaration declared (by simp [lexeme, reservedNames])

end Region

namespace Scopes

/-- Each scope contains what the region in the same position knows at the place. -/
def Reflects (scopes : Scopes) (regions : List Region) (place : Nat) : Prop :=
  List.Forall₂ (fun scope region => ∀ name, scope.contains name ↔ region.Knows name place)
    scopes regions

def defineAll (scopes : Scopes) (names : List Occurrence) : Scopes :=
  names.foldl (fun scopes name => scopes.define name.lexeme) scopes

def upTo (scopes : Scopes) (place : Nat) (names : List Occurrence) : Scopes :=
  scopes.defineAll (names.filter (·.place < place))

/-- Seen from everything mentioned, the scopes reflect the regions once those names have
been declared that stand before it. -/
def Follows (scopes : Scopes) (regions : List Region) (names : List Occurrence)
    (mentions : List Mention) : Prop :=
  ∀ mention ∈ mentions,
    (scopes.upTo mention.word.place names).Reflects regions mention.word.place

variable {scopes : Scopes} {regions : List Region} {place : Nat}

/-! ## What reflected regions tell -/

namespace Reflects

theorem distance? (reflects : scopes.Reflects regions place) (name : String) :
    scopes.distance? name = regions.findIdx? fun region => region.Knows name place := by
  induction reflects with
  | nil => rfl
  | @cons scope region outer others contains _ induction =>
      simp only [distance?_cons, induction, List.findIdx?_cons]
      by_cases knows : region.Knows name place
      · simp [knows, (contains name).mpr knows]
      · have absent : scope.contains name = false := by
          rw [← Bool.not_eq_true]
          exact fun found => knows ((contains name).mp found)
        simp [knows, absent]

theorem declaredHere (reflects : scopes.Reflects regions place) (name : String) :
    scopes.declaredHere name ↔ ∃ region ∈ regions.head?, region.Knows name place := by
  cases reflects with
  | nil => simp [Scopes.declaredHere]
  | cons contains _ => simpa [Scopes.declaredHere] using contains name

theorem eq_nil_iff (reflects : scopes.Reflects regions place) :
    scopes = [] ↔ regions = [] := by
  cases reflects <;> simp

theorem enter {name : String} {complete other : Bool}
    (reflects : Reflects (scopes.enter name complete) regions place) :
    Reflects (scopes.enter name other) regions place := by
  cases scopes with
  | nil => exact reflects
  | cons scope outer =>
      cases reflects with
      | cons contains others =>
          refine .cons (fun name' => ?_) others
          rw [← contains name', Bindings.contains_bind, Bindings.contains_bind]

end Reflects

/-! ## Declarations one after the other -/

theorem defineAll_append (first second : List Occurrence) :
    scopes.defineAll (first ++ second) = (scopes.defineAll first).defineAll second :=
  List.foldl_append

theorem nest_parameters (scopes : Scopes) (parameters : List Occurrence) :
    scopes.nest (parameters.map (·.lexeme)) = (scopes.nest []).defineAll parameters := by
  rw [nest, List.foldl_map]
  rfl

theorem scopesAfter_eq (scopes : Scopes) (statement : Stmt) :
    statement.scopesAfter scopes = scopes.defineAll statement.declared?.toList := by
  rw [Stmt.scopesAfter]
  cases statement.declared? <;> rfl

theorem Complete.defineAll (complete : scopes.Complete) (names : List Occurrence) :
    (scopes.defineAll names).Complete := by
  induction names generalizing scopes with
  | nil => exact complete
  | cons name rest induction => exact induction (complete.define name.lexeme)

theorem defineAll_nest (scopes : Scopes) (names : List Occurrence) :
    ∃ inner : Scope, (scopes.nest []).defineAll names = inner :: scopes ∧
      ∀ name, inner.contains name ↔ ∃ declaration ∈ names, declaration.lexeme = name := by
  obtain ⟨inner, same, found⟩ := nest_eq scopes (names.map (·.lexeme))
  refine ⟨inner, (nest_parameters scopes names).symm.trans same, fun name => ?_⟩
  rw [Bindings.contains, found]
  by_cases member : name ∈ names.map (·.lexeme)
  · simp only [member, if_true, Option.isSome_some, true_iff]
    exact List.mem_map.mp member
  · simp only [member, if_false, Option.isSome_none, Bool.false_eq_true, false_iff]
    exact fun declared => member (List.mem_map.mpr declared)

namespace Follows

variable {names names' : List Occurrence} {mentions mentions' : List Mention}

theorem subset (follows : scopes.Follows regions names mentions)
    (fewer : mentions' ⊆ mentions) : scopes.Follows regions names mentions' :=
  fun mention member => follows mention (fewer member)

theorem behind (follows : scopes.Follows regions (names ++ names') mentions)
    (before : Mention.Before (names.map .declaration) mentions) :
    (scopes.defineAll names).Follows regions names' mentions := by
  intro mention member
  have reflects := follows mention member
  have all : names.filter (·.place < mention.word.place) = names :=
    List.filter_eq_self.mpr fun name found =>
      decide_eq_true (before _ (List.mem_map_of_mem found) mention member)
  rwa [upTo, List.filter_append, all, defineAll_append] at reflects

theorem ahead (follows : scopes.Follows regions (names ++ names') mentions)
    (behind : ∀ mention ∈ mentions, ∀ name ∈ names', mention.word.place ≤ name.place) :
    scopes.Follows regions names mentions := by
  intro mention member
  have reflects := follows mention member
  have none : names'.filter (·.place < mention.word.place) = [] :=
    List.filter_eq_nil_iff.mpr fun name found => by
      simpa using behind mention member name found
  rwa [upTo, List.filter_append, none, List.append_nil] at reflects

theorem nest (follows : scopes.Follows regions [] mentions) (region : Region)
    (given : region.given? = none) :
    (scopes.nest []).Follows (region :: regions) region.declared mentions := by
  intro mention member
  have outer := follows mention member
  obtain ⟨inner, same, found⟩ := defineAll_nest scopes
    (region.declared.filter (·.place < mention.word.place))
  rw [upTo, same]
  refine .cons (fun name => ?_) outer
  rw [found, Region.Knows, given]
  simp [and_assoc, and_comm]

theorem insideClass (follows : scopes.Follows regions [] mentions)
    (superclass : Option Occurrence) :
    (scopes.insideClass superclass).Follows (Region.ofClass superclass ++ regions) []
      mentions := by
  have around {scopes : Scopes} {regions : List Region} {place : Nat} {word : String}
      (region : Region) (given : region.given? = some word) (empty : region.declared = [])
      (reflects : scopes.Reflects regions place) :
      Reflects (scopes.nest [word]) (region :: regions) place := by
    obtain ⟨inner, same, found⟩ := nest_eq scopes [word]
    rw [same]
    refine .cons (fun name => ?_) reflects
    rw [Bindings.contains, found, Region.Knows, given, empty]
    by_cases is : word = name
    · simp [is]
    · simp [is, Ne.symm is]
  intro mention member
  have outer := follows mention member
  cases superclass with
  | none => exact around (.methods false) rfl rfl outer
  | some => exact around (.methods true) rfl rfl (around .heritage rfl rfl outer)

end Follows

end Scopes

end LoxLang
