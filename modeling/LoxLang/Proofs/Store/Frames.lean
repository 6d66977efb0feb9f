import LoxLang.Store.Frames

/-! # What a change of frames changes

Adding a frame changes nothing in the others, and binding a name changes what that name is
in that frame. In the outermost frame a name is looked up in that frame alone.
-/

namespace LoxLang

namespace Bindings

variable {α : Type}

theorem bind_bind (bindings : Bindings α) (name : String) (first second : α) :
    (bindings.bind name first).bind name second = bindings.bind name second := by
  rcases bindings with ⟨entries⟩
  simp only [bind, mk.injEq]
  induction entries with
  | nil => simp [bindIn]
  | cons entry rest induction =>
      rcases entry with ⟨key, value⟩
      rw [bindIn]
      split
      case isTrue same => simp [bindIn, same]
      case isFalse different => simp [bindIn, different, induction]

theorem names_bind (bindings : Bindings α) {name : String} (has : bindings.contains name)
    (value : α) : (bindings.bind name value).names = bindings.names := by
  rcases bindings with ⟨entries⟩
  simp only [contains, get?, names, bind] at has ⊢
  induction entries with
  | nil => cases has
  | cons entry rest induction =>
      rcases entry with ⟨key, old⟩
      rw [lookupIn] at has
      rw [bindIn]
      split
      case isTrue => rfl
      case isFalse different =>
          rw [if_neg different] at has
          rw [List.map_cons, List.map_cons, induction has]

theorem contains_bind (bindings : Bindings α) (name other : String) (value : α) :
    (bindings.bind name value).contains other =
      (decide (name = other) || bindings.contains other) := by
  simp only [contains, get?_bind]
  split <;> simp_all

end Bindings

namespace Frames

variable (frames : Frames) {frame other : FrameId} {name : String} {value : Value}
  {enclosing : Option FrameId}

@[simp] theorem size_push : (frames.push enclosing).size = frames.size + 1 := by
  simp [push, size]

@[simp] theorem size_define : (frames.define frame name value).size = frames.size := by
  simp [define, size]

theorem enclosing?_push :
    (frames.push enclosing).enclosing? other =
      if other = frames.size then enclosing else frames.enclosing? other := by
  simp only [enclosing?, push, size, Array.getElem?_push]
  split <;> simp_all

theorem namesOf_push :
    (frames.push enclosing).namesOf other =
      if other = frames.size then Bindings.empty else frames.namesOf other := by
  by_cases new : other = frames.size
  · rw [if_pos new]
    simp only [size] at new
    simp [namesOf, push, new]
  · rw [if_neg new]
    simp only [size] at new
    simp [namesOf, push, Array.getElem?_push, new]

@[simp] theorem enclosing?_define :
    (frames.define frame name value).enclosing? other = frames.enclosing? other := by
  simp only [enclosing?, define, Array.getElem?_modify]
  split
  case isTrue same =>
    subst same
    cases frames.all[frame]? <;> rfl
  case isFalse => rfl

theorem namesOf_define (exists_ : frame < frames.size) :
    (frames.define frame name value).namesOf other =
      if frame = other then (frames.namesOf frame).bind name value
        else frames.namesOf other := by
  simp only [size] at exists_
  by_cases same : frame = other
  · subst same
    simp [namesOf, define, Array.getElem?_modify, Array.getElem?_eq_getElem exists_]
  · simp [namesOf, define, Array.getElem?_modify, same]

theorem here?_define (exists_ : frame < frames.size) (asked : String) :
    (frames.define frame name value).here? other asked =
      if frame = other ∧ name = asked then some value else frames.here? other asked := by
  simp only [here?, namesOf_define frames exists_]
  by_cases same : frame = other
  · subst same
    simp
  · simp [same]

theorem here?_push_of_lt (exists_ : other < frames.size) (asked : String) :
    (frames.push enclosing).here? other asked = frames.here? other asked := by
  rw [here?, here?, namesOf_push, if_neg (Nat.ne_of_lt exists_)]

theorem here?_push_size (asked : String) :
    (frames.push enclosing).here? frames.size asked = none := by
  simp [here?, namesOf_push]

theorem here?_of_size_le (missing : frames.size ≤ other) (asked : String) :
    frames.here? other asked = none := by
  rw [here?, namesOf, Array.getElem?_eq_none missing]
  rfl

theorem define_of_size_le (missing : frames.size ≤ frame) :
    frames.define frame name value = frames := by
  simp only [size] at missing
  rcases frames with ⟨all⟩
  simp only [define, mk.injEq]
  apply Array.ext_getElem?
  intro other
  rw [Array.getElem?_modify]
  split
  case isTrue same =>
      rw [← same, Array.getElem?_eq_none missing]
      rfl
  case isFalse => rfl

/-! ## Frames that enclose each other alike -/

section Congruence

variable {frames} {frames' : Frames}
  (enclosings : ∀ frame, frames'.enclosing? frame = frames.enclosing? frame)

include enclosings

theorem ancestor?_congr (frame : FrameId) (steps : Nat) :
    frames'.ancestor? frame steps = frames.ancestor? frame steps := by
  have outward : ∀ place, frames'.outward? steps place = frames.outward? steps place := by
    induction steps with
    | zero => exact fun _ => rfl
    | succ steps induction =>
        intro place
        cases place with
        | none => rfl
        | some frame => rw [outward?, outward?, enclosings, induction]
  rw [ancestor?, ancestor?, outward]

theorem home?_congr (sizes : frames'.size = frames.size)
    (names : ∀ frame name, (frames'.namesOf frame).contains name =
      (frames.namesOf frame).contains name) (frame : FrameId) (name : String) :
    frames'.home? frame name = frames.home? frame name := by
  have chains : ∀ limit frame, frames'.chainWithin limit frame =
      frames.chainWithin limit frame := by
    intro limit
    induction limit with
    | zero => exact fun _ => rfl
    | succ limit induction =>
        intro frame
        rw [chainWithin, chainWithin, enclosings]
        split
        · rw [induction]
        · rfl
  simp only [home?, chain, sizes, chains, names]

end Congruence

/-! ## Steps outward -/

theorem ancestor?_zero : frames.ancestor? frame 0 = some frame := rfl

variable {frames}

theorem ancestor?_succ {outer : FrameId} (enclosed : frames.enclosing? frame = some outer)
    (steps : Nat) :
    frames.ancestor? frame (steps + 1) = frames.ancestor? outer steps := by
  rw [ancestor?, outward?, enclosed, ancestor?]

/-! ## Names of the frame itself -/

theorem assign?_here (exists_ : frame < frames.size)
    (bound : (frames.namesOf frame).contains name) :
    frames.assign? frame name value = some (frames.define frame name value) := by
  obtain ⟨count, size⟩ := Nat.exists_eq_add_one_of_ne_zero (Nat.ne_zero_of_lt exists_)
  rw [assign?, home?, chain, size, chainWithin, List.find?_cons_of_pos (by exact bound)]
  rfl

/-! ## The outermost frame -/

theorem home?_outermost (outermost : frames.enclosing? frame = none)
    (nonempty : 0 < frames.size) :
    frames.home? frame name = if (frames.namesOf frame).contains name then some frame
      else none := by
  obtain ⟨count, size⟩ : ∃ count, frames.size = count + 1 := ⟨frames.size - 1, by omega⟩
  rw [home?, chain, size, chainWithin, outermost]
  simp [List.find?_cons]
  split <;> simp_all

theorem get?_outermost (outermost : frames.enclosing? frame = none)
    (nonempty : 0 < frames.size) :
    frames.get? frame name = (frames.namesOf frame).get? name := by
  rw [get?, home?_outermost outermost nonempty, Bindings.contains]
  cases found : (frames.namesOf frame).get? name with
  | none => rfl
  | some value => simpa [here?] using found

theorem assign?_outermost (outermost : frames.enclosing? frame = none)
    (nonempty : 0 < frames.size) :
    frames.assign? frame name value =
      if (frames.namesOf frame).contains name then some (frames.define frame name value)
      else none := by
  rw [assign?, home?_outermost outermost nonempty]
  split <;> rfl

end Frames

end LoxLang
