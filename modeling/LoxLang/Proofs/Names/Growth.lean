import LoxLang.Machine.Basic
import LoxLang.Proofs.Binding.Scopes

/-! # Names in frames

While a program runs, frames are added and names are bound in frames. How much of that may
happen is said by the names that existing frames may gain. What scopes know about names
stays true of the frames meanwhile, and so do the homes of closures.
-/

namespace LoxLang

/-! ## Names of frames -/

/-- Names that frames may gain. -/
abbrev Gains := FrameId → String → Prop

namespace Gains

def none : Gains := fun _ _ => False

def inFrame (frame : FrameId) : Gains := fun gaining _ => gaining = frame

def orFrom (first : FrameId) (gains : Gains) : Gains := fun gaining name =>
  first ≤ gaining ∨ gains gaining name

end Gains

namespace Frames

def Has (frames : Frames) (frame : FrameId) (name : String) : Prop :=
  (frames.namesOf frame).contains name

instance (frames : Frames) (frame : FrameId) (name : String) :
    Decidable (frames.Has frame name) := inferInstanceAs (Decidable (_ = true))

/-- Frames are added, and the frames that were there gain no names but those they may. -/
structure Grows (gains : Gains) (frames later : Frames) : Prop where
  size : frames.size ≤ later.size
  enclosing : ∀ frame < frames.size, later.enclosing? frame = frames.enclosing? frame
  kept : ∀ frame name, frames.Has frame name → later.Has frame name
  gained : ∀ frame < frames.size, ∀ name, later.Has frame name →
    frames.Has frame name ∨ gains frame name

variable {frames later latest : Frames} {frame other outer : FrameId} {name : String}
  {value : Value} {gains wider : Gains}

theorem lt_size_of_has (has : frames.Has frame name) : frame < frames.size := by
  rcases Nat.lt_or_ge frame frames.size with exists_ | missing
  · exact exists_
  · have nothing := frames.here?_of_size_le missing name
    rw [here?] at nothing
    rw [Has, Bindings.contains, nothing] at has
    cases has

theorem lt_size_of_enclosing? (enclosed : frames.enclosing? frame = some outer) :
    frame < frames.size := by
  rcases Nat.lt_or_ge frame frames.size with exists_ | missing
  · exact exists_
  · rw [enclosing?, Array.getElem?_eq_none missing] at enclosed
    cases enclosed

theorem has_define (exists_ : frame < frames.size) (asked : String) :
    (frames.define frame name value).Has other asked ↔
      (frame = other ∧ name = asked) ∨ frames.Has other asked := by
  rw [Has, namesOf_define _ exists_]
  by_cases same : frame = other
  · subst same
    simp [Has, Bindings.contains_bind]
  · simp [Has, same]

theorem has_push_of_ne {enclosing : Option FrameId} (old : other ≠ frames.size) :
    (frames.push enclosing).Has other name ↔ frames.Has other name := by
  rw [Has, Has, namesOf_push, if_neg old]

namespace Grows

theorem refl (frames : Frames) : Grows gains frames frames :=
  ⟨Nat.le_refl _, fun _ _ => rfl, fun _ _ => id, fun _ _ _ => .inl⟩

theorem trans (first : Grows gains frames later) (second : Grows gains later latest) :
    Grows gains frames latest where
  size := Nat.le_trans first.size second.size
  enclosing frame exists_ :=
    (second.enclosing frame (Nat.lt_of_lt_of_le exists_ first.size)).trans
      (first.enclosing frame exists_)
  kept frame name has := second.kept frame name (first.kept frame name has)
  gained frame exists_ name has := by
    rcases second.gained frame (Nat.lt_of_lt_of_le exists_ first.size) name has with
      before | gained
    · exact first.gained frame exists_ name before
    · exact .inr gained

theorem weaken (grows : Grows gains frames later)
    (implies : ∀ frame < frames.size, ∀ name, gains frame name → wider frame name) :
    Grows wider frames later :=
  { grows with
    gained := fun frame exists_ name has =>
      (grows.gained frame exists_ name has).imp_right (implies frame exists_ name) }

theorem push (enclosing : Option FrameId) :
    Grows gains frames (frames.push enclosing) where
  size := by simp
  enclosing frame exists_ := by rw [enclosing?_push, if_neg (Nat.ne_of_lt exists_)]
  kept frame name has := (has_push_of_ne (Nat.ne_of_lt (lt_size_of_has has))).mpr has
  gained frame exists_ name has := .inl ((has_push_of_ne (Nat.ne_of_lt exists_)).mp has)

theorem define (value : Value) (allowed : frames.Has frame name ∨ gains frame name) :
    Grows gains frames (frames.define frame name value) := by
  rcases Nat.lt_or_ge frame frames.size with exists_ | missing
  · refine ⟨by simp, by simp, ?_, ?_⟩
    · exact fun other asked has => (has_define exists_ asked).mpr (.inr has)
    · intro other _ asked has
      rcases (has_define exists_ asked).mp has with ⟨rfl, rfl⟩ | before
      · exact allowed
      · exact .inl before
  · rw [frames.define_of_size_le missing]
    exact refl frames

end Grows

end Frames

/-! ## Names that scopes know -/

namespace Scopes

/-- The names that scopes know are in the frames from `frame` outward, unless their
declaration is not complete. -/
inductive Covers (frames : Frames) : Scopes → FrameId → Prop
  | topLevel : Covers frames [] Machine.globals
  | inside {scope : Scope} {outer : Scopes} {frame enclosing : FrameId}
      (outerCovered : Covers frames outer enclosing)
      (enclosed : frames.enclosing? frame = some enclosing)
      (here : ∀ name, scope.get? name = some true → frames.Has frame name) :
      Covers frames (scope :: outer) frame

namespace Covers

variable {frames later : Frames} {gains : Gains} {scopes : Scopes}
  {frame enclosing other : FrameId} {name : String}

theorem mono (covers : Covers frames scopes frame) (grows : frames.Grows gains later) :
    Covers later scopes frame := by
  induction covers with
  | topLevel => exact .topLevel
  | inside _ enclosed here outerCovered =>
      refine .inside outerCovered ?_ fun name known => grows.kept _ name (here name known)
      rw [grows.enclosing _ (Frames.lt_size_of_enclosing? enclosed), enclosed]

theorem lt_size (covers : Covers frames scopes frame) (positive : 0 < frames.size) :
    frame < frames.size := by
  cases covers with
  | topLevel => exact positive
  | inside _ enclosed _ => exact Frames.lt_size_of_enclosing? enclosed

theorem nest (covers : Covers frames scopes enclosing)
    (enclosed : frames.enclosing? frame = some enclosing) {names : List String}
    (here : ∀ name ∈ names, frames.Has frame name) :
    Covers frames (scopes.nest names) frame := by
  rcases scopes.nest_eq names with ⟨inner, same, found⟩
  rw [same]
  refine .inside covers enclosed fun name known => here name ?_
  rw [found] at known
  split at known
  case isTrue member => exact member
  case isFalse => cases known

theorem block (covers : Covers frames scopes frame) :
    Covers (frames.push (some frame)) (scopes.nest []) frames.size := by
  have pushed : frames.Grows Gains.none (frames.push (some frame)) := .push _
  refine (covers.mono pushed).nest ?_ nofun
  rw [Frames.enclosing?_push, if_pos rfl]

theorem define (covers : Covers frames scopes frame) (has : frames.Has frame name) :
    Covers frames (scopes.define name) frame := by
  cases covers with
  | topLevel => exact .topLevel
  | inside outerCovered enclosed here =>
      refine .inside outerCovered enclosed fun other known => ?_
      rw [Bindings.get?_bind] at known
      split at known
      case isTrue same => exact same ▸ has
      case isFalse => exact here other known

theorem frameWith (covers : Covers frames scopes enclosing) (name : String)
    (value : Value) :
    Covers ((frames.push (some enclosing)).define frames.size name value)
      (scopes.nest [name]) frames.size := by
  have pushed : frames.Grows Gains.none (frames.push (some enclosing)) := .push _
  have exists_ : frames.size < (frames.push (some enclosing)).size := by simp
  have has : ((frames.push (some enclosing)).define frames.size name value).Has
      frames.size name := (Frames.has_define exists_ _).mpr (.inl ⟨rfl, rfl⟩)
  refine ((covers.mono pushed).mono (.define value (.inr trivial) :
    Frames.Grows (fun _ _ => True) _ _)).nest ?_ ?_
  · rw [Frames.enclosing?_define, Frames.enclosing?_push, if_pos rfl]
  · exact List.forall_mem_singleton.mpr has

theorem declare (covers : Covers frames scopes frame) (name : String) :
    Covers frames (scopes.declare name) frame := by
  cases covers with
  | topLevel => exact .topLevel
  | inside outerCovered enclosed here =>
      refine .inside outerCovered enclosed fun other known => ?_
      rw [Bindings.get?_bind] at known
      split at known
      case isTrue => cases known
      case isFalse => exact here other known

private theorem has_or_incomplete (covers : Covers frames scopes frame) {distance : Nat}
    (found : scopes.distance? name = some distance)
    (reached : frames.ancestor? frame distance = some other) :
    frames.Has other name ∨ scopes.state? name = some false := by
  induction covers generalizing distance with
  | topLevel => cases found
  | @inside scope outer frame enclosing _ enclosed here induction =>
      rw [distance?_cons] at found
      rw [state?_cons]
      cases state : scope.get? name with
      | some complete =>
          rw [Bindings.contains, state] at found
          obtain rfl : 0 = distance := Option.some.inj found
          obtain rfl : frame = other := Option.some.inj reached
          cases complete with
          | true => exact .inl (here name state)
          | false => exact .inr rfl
      | none =>
          rw [Bindings.contains, state] at found
          rcases Option.map_eq_some_iff.mp found with ⟨steps, foundOutside, rfl⟩
          rw [Frames.ancestor?_succ enclosed] at reached
          exact induction foundOutside reached

/-- A name is in the frame at its distance, or it is the name whose declaration has begun
in the innermost scope. -/
theorem has_or_begun (covers : Covers frames scopes frame) (usable : scopes.Usable)
    {distance : Nat} (found : scopes.distance? name = some distance)
    (reached : frames.ancestor? frame distance = some other) :
    frames.Has other name ∨ (other = frame ∧ scopes.incompleteHere name) := by
  rcases covers.has_or_incomplete found reached with has | incomplete
  · exact .inl has
  · have begun := (usable name incomplete).1
    refine .inr ⟨?_, begun⟩
    cases scopes with
    | nil => cases found
    | cons scope outer =>
        have inside : scope.contains name = true := by
          simp only [incompleteHere, List.head?_cons, Option.any_some,
            decide_eq_true_eq] at begun
          rw [Bindings.contains, begun]
          rfl
        rw [distance?_cons, if_pos inside] at found
        obtain rfl : 0 = distance := Option.some.inj found
        exact (Option.some.inj reached).symm

end Covers

end Scopes

end LoxLang
