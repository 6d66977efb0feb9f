import LoxLang.Proofs.Machine.Works
import LoxLang.Proofs.Names.Soundness
import LoxLang.Proofs.Methods.Retention
import LoxLang.Proofs.Store.Walks
import LoxLang.Tree.References

/-! # Where values come from

Frames and classes are numbered in the order in which they are made. A frame is enclosed by
an earlier one, and a class has been made after its superclass. Which class a number stands
for is settled when the class is made, and so is what its methods and those of other
functions refer to. All that is known of a value stays true, because frames are only added,
each inside of another, and numbers are not given out again.
-/

namespace LoxLang

/-! ## Classes and references in use -/

/-- Which classes are made in some course of events, and which references are read
together. -/
structure Sources where
  Made : Class → Prop
  Read : List Reference → Prop
  fewer : ∀ {references others}, Read references → others ⊆ references → Read others

variable (sources : Sources)

/-- The function finds its free names in a frame that exists, and its references have been
read together. -/
structure Closure.Traced (machine : Machine) (closure : Closure) : Prop where
  exists_ : closure.frame < machine.frames.size
  read : sources.Read closure.routine.references

/-- The class has been made with methods that could be made then, and behind its
superclass. -/
structure Class.Founded (machine : Machine) (description : Class) : Prop where
  numbered : description.identity < machine.identities
  methods : ∀ name method, description.methods.get? name = some method →
    method.Traced sources machine
  earlier : ∀ parent ∈ description.superclass, parent.identity < description.identity

def Class.Traced (machine : Machine) (description : Class) : Prop :=
  ∀ steps above, Linked Class.superclass description steps above →
    sources.Made above ∧ above.Founded sources machine

def Value.Traced (machine : Machine) : Value → Prop
  | .function _ closure => closure.Traced sources machine
  | .classValue description | .object _ description => description.Traced sources machine
  | .nil | .bool _ | .number _ | .string _ | .native _ => True

/-- All values that are found can be traced, and each frame is enclosed by an earlier
one. -/
structure Machine.Traced (machine : Machine) : Prop where
  values : ∀ frame name value, machine.frames.here? frame name = some value →
    value.Traced sources machine
  fields : ∀ (object : Nat) bindings name value, machine.objects[object]? = some bindings →
    bindings.get? name = some value → value.Traced sources machine
  ordered : machine.frames.Ordered
  exists_ : machine.current < machine.frames.size

/-! ## Later machines -/

/-- The later machine has the frames of the earlier one, enclosed as before, and has given
out its numbers. -/
structure Machine.Continues (machine later : Machine) : Prop where
  frames : machine.frames.size ≤ later.frames.size
  enclosing : ∀ frame < machine.frames.size,
    later.frames.enclosing? frame = machine.frames.enclosing? frame
  identities : machine.identities ≤ later.identities

/-- What running programs does to a machine: new frames are enclosed, and what is known of
references stays the same. -/
structure Machine.Proceeds (machine later : Machine) : Prop
    extends machine.Continues later where
  enclosed : ∀ frame, machine.frames.size ≤ frame → frame < later.frames.size →
    later.frames.enclosing? frame ≠ none
  distances : later.distances = machine.distances

namespace Machine

variable {machine between later : Machine}

namespace Continues

theorem refl (machine : Machine) : machine.Continues machine :=
  ⟨Nat.le_refl _, fun _ _ => rfl, Nat.le_refl _⟩

theorem trans (first : machine.Continues between) (second : between.Continues later) :
    machine.Continues later where
  frames := Nat.le_trans first.frames second.frames
  enclosing frame exists_ :=
    (second.enclosing frame (Nat.lt_of_lt_of_le exists_ first.frames)).trans
      (first.enclosing frame exists_)
  identities := Nat.le_trans first.identities second.identities

theorem push (machine : Machine) (enclosing : Option FrameId) :
    machine.Continues { machine with frames := machine.frames.push enclosing } where
  frames := by simp
  enclosing frame exists_ := by
    rw [Frames.enclosing?_push, if_neg (Nat.ne_of_lt exists_)]
  identities := Nat.le_refl _

theorem agree (first : machine.Continues later) (second : between.Continues later)
    {frame : FrameId} (exists_ : frame < machine.frames.size)
    (exists' : frame < between.frames.size) :
    machine.frames.enclosing? frame = between.frames.enclosing? frame :=
  (first.enclosing frame exists_).symm.trans (second.enclosing frame exists')

end Continues

namespace Proceeds

theorem refl (machine : Machine) : machine.Proceeds machine :=
  ⟨.refl machine, fun _ missing exists_ => absurd exists_ (Nat.not_lt.mpr missing), rfl⟩

theorem trans (first : machine.Proceeds between) (second : between.Proceeds later) :
    machine.Proceeds later where
  toContinues := first.toContinues.trans second.toContinues
  enclosed frame missing exists_ := by
    rcases Nat.lt_or_ge frame between.frames.size with inside | missing'
    · rw [second.enclosing frame inside]
      exact first.enclosed frame missing inside
    · exact second.enclosed frame missing' exists_
  distances := second.distances.trans first.distances

theorem of_eq (frames : later.frames.size = machine.frames.size)
    (enclosing : ∀ frame, later.frames.enclosing? frame = machine.frames.enclosing? frame)
    (identities : machine.identities ≤ later.identities)
    (distances : later.distances = machine.distances) : machine.Proceeds later where
  frames := Nat.le_of_eq frames.symm
  enclosing frame _ := enclosing frame
  identities := identities
  enclosed _ missing exists_ := absurd (frames ▸ exists_) (Nat.not_lt.mpr missing)
  distances := distances

theorem push (machine : Machine) (enclosing : FrameId) :
    machine.Proceeds { machine with frames := machine.frames.push (some enclosing) } where
  toContinues := .push machine enclosing
  enclosed frame missing exists_ := by
    rw [Frames.size_push] at exists_
    rcases Nat.le_antisymm (Nat.le_of_lt_succ exists_) missing with rfl
    rw [Frames.enclosing?_push, if_pos rfl]
    exact Option.some_ne_none enclosing
  distances := rfl

theorem define (machine : Machine) (frame : FrameId) (name : String) (value : Value) :
    machine.Proceeds { machine with frames := machine.frames.define frame name value } :=
  .of_eq (by simp) (by simp) (Nat.le_refl _) rfl

theorem pushWith (machine : Machine) (enclosing : FrameId) (name : String) (value : Value) :
    machine.Proceeds
      { machine with frames := machine.frames.pushWith enclosing name value } :=
  (push machine enclosing).trans (define _ _ _ _)

end Proceeds

end Machine

def progress : Development where
  Later := Machine.Proceeds
  refl := .refl
  trans := .trans
  elsewhere _ _ := .of_eq rfl (fun _ => rfl) (Nat.le_refl _) rfl

/-! ## What is known stays true -/

section Growth

variable {sources} {machine later : Machine}

theorem Closure.Traced.mono {closure : Closure} (traced : closure.Traced sources machine)
    (continues : machine.Continues later) : closure.Traced sources later :=
  ⟨Nat.lt_of_lt_of_le traced.exists_ continues.frames, traced.read⟩

theorem Class.Founded.mono {description : Class}
    (founded : description.Founded sources machine) (continues : machine.Continues later) :
    description.Founded sources later where
  numbered := Nat.lt_of_lt_of_le founded.numbered continues.identities
  methods name method found := (founded.methods name method found).mono continues
  earlier := founded.earlier

theorem Class.Traced.mono {description : Class}
    (traced : description.Traced sources machine) (continues : machine.Continues later) :
    description.Traced sources later :=
  fun steps above linked =>
    ⟨(traced steps above linked).1, (traced steps above linked).2.mono continues⟩

theorem Value.Traced.mono {value : Value} (traced : value.Traced sources machine)
    (continues : machine.Continues later) : value.Traced sources later := by
  cases value with
  | function identity closure => exact Closure.Traced.mono traced continues
  | classValue description | object identity description =>
      exact Class.Traced.mono traced continues
  | nil | bool | number | string | native => trivial

theorem Value.IsPlain.traced {value : Value} (isPlain : value.IsPlain) :
    value.Traced sources machine := by
  cases value with
  | nil | bool | number | string => trivial
  | function | native | classValue | object => exact isPlain.elim

end Growth

/-! ## Classes that can be traced -/

namespace Class.Traced

variable {sources} {machine : Machine} {description parent : Class}

theorem made (traced : description.Traced sources machine) : sources.Made description :=
  (traced 0 description (.self description)).1

theorem founded (traced : description.Traced sources machine) :
    description.Founded sources machine :=
  (traced 0 description (.self description)).2

theorem superclass (traced : description.Traced sources machine)
    (isParent : description.superclass = some parent) : parent.Traced sources machine :=
  fun steps above linked => traced (steps + 1) above (.link isParent linked)

theorem of_founded (made : sources.Made description)
    (founded : description.Founded sources machine)
    (inherited : ∀ parent ∈ description.superclass, parent.Traced sources machine) :
    description.Traced sources machine := by
  intro steps above linked
  cases linked with
  | self => exact ⟨made, founded⟩
  | link isParent others => exact inherited _ isParent _ above others

theorem leadsBack (traced : description.Traced sources machine) :
    LeadsBack Class.superclass Class.identity description :=
  fun steps other parent linked isParent =>
    (traced steps other linked).2.earlier parent isParent

theorem findMethod? (traced : description.Traced sources machine) {name : String}
    {method : Closure} (found : description.findMethod? name = some method) :
    method.Traced sources machine := by
  rcases traced.leadsBack.exists_walk (Class.Has · name) with ⟨steps, result, -, walk⟩
  rw [Class.findMethod?_of_walk walk] at found
  rcases Option.bind_eq_some_iff.mp found with ⟨home, isHome, found⟩
  have linked := (walk.nearest home isHome).linked
  exact (traced steps home linked).2.methods name method found

end Class.Traced

/-! ## Machines that can be traced -/

structure Machine.TracedTo (machine later : Machine) : Prop where
  traced : later.Traced sources
  proceeds : machine.Proceeds later
  current : later.current = machine.current

namespace Machine

variable {sources} {machine between later : Machine} {frame : FrameId} {name : String}
  {value : Value}

theorem TracedTo.trans (first : machine.TracedTo sources between)
    (second : between.TracedTo sources later) : machine.TracedTo sources later :=
  ⟨second.traced, first.proceeds.trans second.proceeds, second.current.trans first.current⟩

namespace Traced

variable (traced : machine.Traced sources)

include traced

theorem grown (continues : machine.Continues later) (ordered : later.frames.Ordered)
    (exists_ : later.current < later.frames.size)
    (values : ∀ frame name value, later.frames.here? frame name = some value →
      machine.frames.here? frame name = some value ∨ value.Traced sources later)
    (fields : ∀ (object : Nat) bindings name value,
      later.objects[object]? = some bindings → bindings.get? name = some value →
        value.Traced sources machine) : later.Traced sources where
  values frame name value found := by
    rcases values frame name value found with before | new
    · exact (traced.values frame name value before).mono continues
    · exact new
  fields object bindings name value isObject found :=
    (fields object bindings name value isObject found).mono continues
  ordered := ordered
  exists_ := exists_

theorem inFrame (exists_ : frame < machine.frames.size) :
    Traced sources { machine with current := frame } :=
  traced.grown ⟨Nat.le_refl _, fun _ _ => rfl, Nat.le_refl _⟩ traced.ordered exists_
    (fun _ _ _ => .inl) traced.fields

theorem still : machine.TracedTo sources machine := ⟨traced, .refl machine, rfl⟩

theorem same (frames : later.frames = machine.frames)
    (objects : later.objects = machine.objects)
    (current : later.current = machine.current)
    (identities : machine.identities ≤ later.identities) : later.Traced sources := by
  have continues : machine.Continues later :=
    ⟨by rw [frames], fun _ _ => by rw [frames], identities⟩
  refine traced.grown continues ?_ ?_ ?_ ?_
  · exact frames ▸ traced.ordered
  · exact current ▸ frames ▸ traced.exists_
  · rw [frames]
    exact fun _ _ _ => .inl
  · rw [objects]
    exact traced.fields

theorem tracedTo (frames : later.frames = machine.frames)
    (objects : later.objects = machine.objects)
    (current : later.current = machine.current)
    (identities : machine.identities ≤ later.identities)
    (distances : later.distances = machine.distances) :
    machine.TracedTo sources later :=
  ⟨traced.same frames objects current identities,
    .of_eq (by rw [frames]) (fun _ => by rw [frames]) identities distances, current⟩

/-! ### Changes of frames -/

theorem pushed {enclosing : Option FrameId}
    (earlier : ∀ outer ∈ enclosing, outer < machine.frames.size) :
    Traced sources { machine with frames := machine.frames.push enclosing } := by
  have exists_ := Nat.lt_succ_of_lt traced.exists_
  refine traced.grown (.push machine enclosing) ?_ (by simpa using exists_) ?_ traced.fields
  · intro frame outer enclosed
    rw [Frames.enclosing?_push] at enclosed
    split at enclosed
    case isTrue new =>
        subst new
        exact earlier outer enclosed
    case isFalse => exact traced.ordered frame outer enclosed
  · intro frame name value found
    refine .inl ?_
    by_cases new : frame = machine.frames.size
    · subst new
      rw [Frames.here?_push_size] at found
      cases found
    · rwa [Frames.here?, Frames.namesOf_push, if_neg new] at found

theorem push {enclosing : FrameId} (exists_ : enclosing < machine.frames.size) :
    machine.TracedTo sources
      { machine with frames := machine.frames.push (some enclosing) } := by
  refine ⟨traced.pushed fun outer isOuter => ?_, .push machine enclosing, rfl⟩
  rcases Option.some.inj isOuter with rfl
  exact exists_

theorem define (frame : FrameId) (name : String)
    (tracedValue : value.Traced sources machine) :
    machine.TracedTo sources
      { machine with frames := machine.frames.define frame name value } := by
  have proceeds := Proceeds.define machine frame name value
  refine ⟨traced.grown proceeds.toContinues ?_ (by simpa using traced.exists_) ?_
    traced.fields, proceeds, rfl⟩
  · intro other outer enclosed
    rw [Frames.enclosing?_define] at enclosed
    exact traced.ordered other outer enclosed
  · intro other asked found isFound
    rcases Nat.lt_or_ge frame machine.frames.size with inside | missing
    · rw [Frames.here?_define _ inside] at isFound
      split at isFound
      case isTrue =>
          cases isFound
          exact .inr (tracedValue.mono proceeds.toContinues)
      case isFalse => exact .inl isFound
    · rw [Frames.define_of_size_le _ missing] at isFound
      exact .inl isFound

theorem pushWith {enclosing : FrameId} (exists_ : enclosing < machine.frames.size)
    (name : String) (tracedValue : value.Traced sources machine) :
    machine.TracedTo sources
      { machine with frames := machine.frames.pushWith enclosing name value } := by
  have pushed := traced.push exists_
  exact pushed.trans
    (pushed.traced.define _ name (tracedValue.mono pushed.proceeds.toContinues))

/-! ### Changes of objects -/

theorem pushObject :
    machine.TracedTo sources
      { machine with objects := machine.objects.push Bindings.empty } := by
  have proceeds : machine.Proceeds
      { machine with objects := machine.objects.push Bindings.empty } :=
    .of_eq rfl (fun _ => rfl) (Nat.le_refl _) rfl
  refine ⟨traced.grown proceeds.toContinues traced.ordered traced.exists_
    (fun _ _ _ => .inl) ?_, proceeds, rfl⟩
  intro object bindings name value isObject found
  rw [Array.getElem?_push] at isObject
  split at isObject
  · cases isObject
    cases found
  · exact traced.fields object bindings name value isObject found

theorem setField (object : Nat) (name : String)
    (tracedValue : value.Traced sources machine) :
    machine.TracedTo sources
      { machine with objects := machine.objects.modify object (·.bind name value) } := by
  have proceeds : machine.Proceeds
      { machine with objects := machine.objects.modify object (·.bind name value) } :=
    .of_eq rfl (fun _ => rfl) (Nat.le_refl _) rfl
  refine ⟨traced.grown proceeds.toContinues traced.ordered traced.exists_
    (fun _ _ _ => .inl) ?_, proceeds, rfl⟩
  intro other bindings asked found isObject isFound
  rw [Array.getElem?_modify] at isObject
  split at isObject
  case isTrue same =>
      rcases Option.map_eq_some_iff.mp isObject with ⟨before, isBefore, rfl⟩
      rw [Bindings.get?_bind] at isFound
      split at isFound
      · cases isFound
        exact tracedValue
      · exact traced.fields _ before asked found isBefore isFound
  case isFalse => exact traced.fields other bindings asked found isObject isFound

end Traced

end Machine

end LoxLang
