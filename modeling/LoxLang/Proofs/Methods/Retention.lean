import LoxLang.Proofs.Names.Growth

/-! # Frames that classes and bound methods make

A frame with `this` or `super` is made with that name, and neither gains another name nor
has the name bound again. Of two states of the frames that are both kept by a later one,
none needs to be the earlier: they agree on what these frames hold.
-/

namespace LoxLang

namespace Frames

/-- The frame has a name that only classes and bound methods bind. -/
def IsReserved (frames : Frames) (frame : FrameId) : Prop :=
  ∃ name ∈ reservedNames, frames.Has frame name

/-- Reserved frames have no other names. -/
def Pure (frames : Frames) : Prop :=
  ∀ frame, frames.IsReserved frame → ∀ name, frames.Has frame name → name ∈ reservedNames

structure IsOpen (frames : Frames) (frame : FrameId) : Prop where
  exists_ : frame < frames.size
  unreserved : ¬frames.IsReserved frame

/-- Frames are added, and what reserved frames hold is kept. -/
structure Retains (frames later : Frames) : Prop where
  size : frames.size ≤ later.size
  enclosing : ∀ frame < frames.size, later.enclosing? frame = frames.enclosing? frame
  reserved : ∀ frame, frames.IsReserved frame → later.namesOf frame = frames.namesOf frame
  unreserved : ∀ frame, frames.IsOpen frame → ¬later.IsReserved frame
  added : ∀ frame, frames.size ≤ frame → later.IsReserved frame →
    ∀ name, later.Has frame name → name ∈ reservedNames

variable {frames later latest : Frames} {frame other outer : FrameId} {name : String}
  {value : Value}

theorem IsReserved.lt_size (reserved : frames.IsReserved frame) : frame < frames.size := by
  obtain ⟨_, _, has⟩ := reserved
  exact lt_size_of_has has

theorem isReserved_congr (same : later.namesOf other = frames.namesOf frame) :
    later.IsReserved other ↔ frames.IsReserved frame := by
  simp only [IsReserved, Has, same]

namespace Retains

theorem refl (frames : Frames) : frames.Retains frames where
  size := Nat.le_refl _
  enclosing _ _ := rfl
  reserved _ _ := rfl
  unreserved _ isOpen := isOpen.unreserved
  added _ missing reserved := absurd reserved.lt_size (Nat.not_lt.mpr missing)

theorem isOpen (retains : frames.Retains later) (isOpen : frames.IsOpen frame) :
    later.IsOpen frame :=
  ⟨Nat.lt_of_lt_of_le isOpen.exists_ retains.size, retains.unreserved frame isOpen⟩

theorem isReserved (retains : frames.Retains later) (reserved : frames.IsReserved frame) :
    later.IsReserved frame :=
  (isReserved_congr (retains.reserved frame reserved)).mpr reserved

theorem isReserved_of_later (retains : frames.Retains later) (exists_ : frame < frames.size)
    (reserved : later.IsReserved frame) : frames.IsReserved frame :=
  Classical.byContradiction fun unreserved =>
    retains.unreserved frame ⟨exists_, unreserved⟩ reserved

theorem trans (first : frames.Retains later) (second : later.Retains latest) :
    frames.Retains latest where
  size := Nat.le_trans first.size second.size
  enclosing frame exists_ :=
    (second.enclosing frame (Nat.lt_of_lt_of_le exists_ first.size)).trans
      (first.enclosing frame exists_)
  reserved frame reserved :=
    (second.reserved frame (first.isReserved reserved)).trans (first.reserved frame reserved)
  unreserved _ isOpen := second.unreserved _ (first.isOpen isOpen)
  added frame missing reserved name has := by
    rcases Nat.lt_or_ge frame later.size with exists_ | missing'
    · have before := second.isReserved_of_later exists_ reserved
      rw [Has, second.reserved frame before] at has
      exact first.added frame missing before name has
    · exact second.added frame missing' reserved name has

theorem pure (retains : frames.Retains later) (isPure : frames.Pure) : later.Pure := by
  intro frame reserved name has
  rcases Nat.lt_or_ge frame frames.size with exists_ | missing
  · have before := retains.isReserved_of_later exists_ reserved
    rw [Has, retains.reserved frame before] at has
    exact isPure frame before name has
  · exact retains.added frame missing reserved name has

theorem namesOf_of_later (retains : frames.Retains later) (exists_ : frame < frames.size)
    (reserved : later.IsReserved frame) : frames.namesOf frame = later.namesOf frame :=
  (retains.reserved frame (retains.isReserved_of_later exists_ reserved)).symm

end Retains

/-! ## Changes of frames -/

theorem not_isReserved_push (enclosing : Option FrameId) :
    ¬(frames.push enclosing).IsReserved frames.size := by
  intro reserved
  obtain ⟨name, _, has⟩ := reserved
  rw [Has, namesOf_push, if_pos rfl] at has
  cases has

theorem isOpen_push (enclosing : Option FrameId) :
    (frames.push enclosing).IsOpen frames.size :=
  ⟨by simp, not_isReserved_push enclosing⟩

theorem Retains.push (enclosing : Option FrameId) :
    frames.Retains (frames.push enclosing) where
  size := by simp
  enclosing frame exists_ := by rw [enclosing?_push, if_neg (Nat.ne_of_lt exists_)]
  reserved frame reserved := by rw [namesOf_push, if_neg (Nat.ne_of_lt reserved.lt_size)]
  unreserved frame isOpen reserved := by
    have same : (frames.push enclosing).namesOf frame = frames.namesOf frame := by
      rw [namesOf_push, if_neg (Nat.ne_of_lt isOpen.exists_)]
    exact isOpen.unreserved ((isReserved_congr same).mp reserved)
  added frame missing reserved := by
    have exists_ := reserved.lt_size
    rw [size_push] at exists_
    obtain rfl := Nat.le_antisymm (Nat.le_of_lt_succ exists_) missing
    exact absurd reserved (not_isReserved_push enclosing)

theorem isReserved_define_iff (unreserved : name ∉ reservedNames) :
    (frames.define frame name value).IsReserved other ↔ frames.IsReserved other := by
  rcases Nat.lt_or_ge frame frames.size with exists_ | missing
  · constructor
    · intro reserved
      obtain ⟨asked, isReserved, has⟩ := reserved
      rcases (has_define exists_ asked).mp has with ⟨-, rfl⟩ | before
      · exact absurd isReserved unreserved
      · exact ⟨asked, isReserved, before⟩
    · intro reserved
      obtain ⟨asked, isReserved, has⟩ := reserved
      exact ⟨asked, isReserved, (has_define exists_ asked).mpr (.inr has)⟩
  · rw [frames.define_of_size_le missing]

theorem Retains.define (unreserved : name ∉ reservedNames)
    (isOpen : ¬frames.IsReserved frame) (value : Value) :
    frames.Retains (frames.define frame name value) where
  size := by simp
  enclosing := by simp
  reserved other reserved := by
    rcases Nat.lt_or_ge frame frames.size with exists_ | missing
    · have different : frame ≠ other := fun same => isOpen (same ▸ reserved)
      rw [namesOf_define _ exists_, if_neg different]
    · rw [frames.define_of_size_le missing]
  unreserved _ isOpen := isOpen.unreserved ∘ (isReserved_define_iff unreserved).mp
  added other missing reserved := by
    have exists_ := ((isReserved_define_iff unreserved).mp reserved).lt_size
    exact absurd exists_ (Nat.not_lt.mpr missing)

theorem Pure.not_isReserved (isPure : frames.Pure) (has : frames.Has frame name)
    (unreserved : name ∉ reservedNames) : ¬frames.IsReserved frame :=
  fun reserved => unreserved (isPure frame reserved name has)

def pushWith (frames : Frames) (enclosing : FrameId) (name : String) (value : Value) :
    Frames :=
  (frames.push (some enclosing)).define frames.size name value

theorem namesOf_pushWith (enclosing : FrameId) (name : String) (value : Value) :
    (frames.pushWith enclosing name value).namesOf other =
      if other = frames.size then ⟨[(name, value)]⟩ else frames.namesOf other := by
  rw [pushWith, namesOf_define _ (by simp)]
  by_cases new : other = frames.size
  · subst new
    rw [if_pos rfl, if_pos rfl, namesOf_push, if_pos rfl]
    rfl
  · rw [if_neg (Ne.symm new), if_neg new, namesOf_push, if_neg new]

theorem here?_pushWith (enclosing : FrameId) (name asked : String) (value : Value) :
    (frames.pushWith enclosing name value).here? other asked =
      if other = frames.size then if name = asked then some value else none
      else frames.here? other asked := by
  rw [here?, namesOf_pushWith]
  split <;> rfl

theorem enclosing?_pushWith (enclosing : FrameId) (name : String) (value : Value) :
    (frames.pushWith enclosing name value).enclosing? other =
      if other = frames.size then some enclosing else frames.enclosing? other := by
  rw [pushWith, enclosing?_define, enclosing?_push]

theorem enclosing?_pushWith_size (enclosing : FrameId) (name : String) (value : Value) :
    (frames.pushWith enclosing name value).enclosing? frames.size = some enclosing := by
  rw [enclosing?_pushWith, if_pos rfl]

@[simp] theorem size_pushWith (enclosing : FrameId) (name : String) (value : Value) :
    (frames.pushWith enclosing name value).size = frames.size + 1 := by
  simp [pushWith]

theorem has_pushWith (enclosing : FrameId) (name asked : String) (value : Value) :
    (frames.pushWith enclosing name value).Has frames.size asked ↔ asked = name := by
  rw [Has, namesOf_pushWith, if_pos rfl]
  simp only [Bindings.contains, Bindings.get?, Bindings.lookupIn]
  split
  case isTrue same => simp [same]
  case isFalse different => simp [Ne.symm different]

theorem Retains.pushWith (enclosing : FrameId) (reserved : name ∈ reservedNames)
    (value : Value) : frames.Retains (frames.pushWith enclosing name value) where
  size := by simp
  enclosing frame exists_ := by
    rw [enclosing?_pushWith, if_neg (Nat.ne_of_lt exists_)]
  reserved frame reserved := by
    rw [namesOf_pushWith, if_neg (Nat.ne_of_lt reserved.lt_size)]
  unreserved frame isOpen reserved := by
    have same : (frames.pushWith enclosing name value).namesOf frame =
        frames.namesOf frame := by
      rw [namesOf_pushWith, if_neg (Nat.ne_of_lt isOpen.exists_)]
    exact isOpen.unreserved ((isReserved_congr same).mp reserved)
  added frame missing isReserved asked has := by
    have exists_ := isReserved.lt_size
    rw [size_pushWith] at exists_
    obtain rfl := Nat.le_antisymm (Nat.le_of_lt_succ exists_) missing
    exact (has_pushWith enclosing name asked value).mp has ▸ reserved

theorem isReserved_pushWith (enclosing : FrameId) (reserved : name ∈ reservedNames)
    (value : Value) : (frames.pushWith enclosing name value).IsReserved frames.size :=
  ⟨name, reserved, (has_pushWith enclosing name name value).mpr rfl⟩

end Frames

end LoxLang
