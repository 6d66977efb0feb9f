import LoxLang.Proofs.Binding.SiteFindings
import LoxLang.Proofs.Methods.Retention
import LoxLang.Proofs.Names.Soundness

/-! # What functions deliver

A function delivers an object if it is bound to one and named as initializers are. It is
bound to the object that its frame has as `this`, and no word of a program that gives a
name a value is that word. So what a frame has as `this` is settled once the frame exists,
and new frames and objects take nothing from it.
-/

namespace LoxLang

/-! ## Trees with proper words -/

def Reference.Proper (reference : Reference) : Prop :=
  reference.occurrence.kind = reference.kind.wordKind ∧ reference.occurrence.Spelled

def Expr.Proper (expression : Expr) : Prop :=
  ∀ reference ∈ expression.references, reference.Proper

def Stmt.Proper (statement : Stmt) : Prop :=
  ∀ mention ∈ statement.mentions, mention.Proper

def Routine.Proper (routine : Routine) : Prop :=
  ∀ mention ∈ routine.mentions, mention.Proper

theorem Reference.Proper.ne_this {name : Occurrence}
    (proper : (⟨.assignment, name⟩ : Reference).Proper) : name.lexeme ≠ "this" :=
  proper.2.identifier proper.1 .thisWord

theorem Mention.Proper.ne_this {name : Occurrence} (proper : (declaration name).Proper) :
    name.lexeme ≠ "this" :=
  proper.2.identifier proper.1 .thisWord

theorem Expr.Proper.of_mentions {expression : Expr} {initialized : Option Occurrence}
    (proper : ∀ mention ∈ expression.mentions initialized, mention.Proper) :
    expression.Proper :=
  fun _ member => proper _ (List.mem_map_of_mem member)

theorem Routine.Proper.parameters {routine : Routine} (proper : routine.Proper) :
    ∀ parameter ∈ routine.parameters, parameter.lexeme ≠ "this" := by
  cases routine with
  | mk name parameters body =>
      intro parameter member
      have declared : (Mention.declaration parameter).Proper :=
        proper _ (List.mem_append_left _ (List.mem_map_of_mem member))
      exact declared.ne_this

theorem Routine.Proper.body {routine : Routine} (proper : routine.Proper) :
    ∀ mention ∈ Stmt.mentionsOfAll routine.body, mention.Proper := by
  cases routine with
  | mk name parameters body =>
      exact fun mention member => proper mention (List.mem_append_right _ member)

theorem Routine.Proper.of_mem {methods : List Routine} {method : Routine}
    (proper : ∀ mention ∈ Routine.mentionsOfMethods methods, mention.Proper)
    (member : method ∈ methods) : method.Proper := by
  induction methods with
  | nil => cases member
  | cons first rest induction =>
      rw [mentionsOfMethods, List.forall_mem_append] at proper
      cases member with
      | head => exact proper.1
      | tail _ member => exact induction proper.2 member

/-! ## Values -/

section Values

variable (frames : Frames)

/-- A function, which is bound to an object if its frame has one as `this`. It delivers the
object if it is also named as initializers are. -/
structure Closure.Proper (closure : Closure) : Prop where
  routine : closure.routine.Proper
  exists_ : closure.frame < frames.size
  delivers : closure.isInitializer =
    ((frames.here? closure.frame "this").isSome && closure.routine.isNamedInit)

structure Closure.ProperMethod (method : Closure) : Prop where
  routine : method.routine.Proper
  exists_ : method.frame < frames.size
  delivers : method.isInitializer = method.routine.isNamedInit

def Closure.BoundTo (closure : Closure) (this : Value) : Prop :=
  frames.here? closure.frame "this" = some this

def Class.Proper (description : Class) : Prop :=
  ∀ name method, description.findMethod? name = some method →
    method.ProperMethod frames ∧ method.routine.name.lexeme = name

end Values

/-- Functions deliver what they should, and objects have been made. -/
def Value.Proper (machine : Machine) : Value → Prop
  | .function _ closure => closure.Proper machine.frames
  | .classValue description => description.Proper machine.frames
  | .object identity description =>
    identity < machine.objects.size ∧ description.Proper machine.frames
  | .nil | .bool _ | .number _ | .string _ | .native _ => True

def Value.IsObject : Value → Prop
  | .object _ _ => True
  | _ => False

/-- The later machine has the frames and objects of the earlier one, and its frames have
the same as `this`. -/
structure Machine.Precedes (machine later : Machine) : Prop where
  frames : machine.frames.size ≤ later.frames.size
  this : ∀ frame < machine.frames.size,
    later.frames.here? frame "this" = machine.frames.here? frame "this"
  objects : machine.objects.size ≤ later.objects.size

namespace Machine.Precedes

theorem refl (machine : Machine) : machine.Precedes machine :=
  ⟨Nat.le_refl _, fun _ _ => rfl, Nat.le_refl _⟩

theorem trans {machine between later : Machine} (first : machine.Precedes between)
    (second : between.Precedes later) : machine.Precedes later where
  frames := Nat.le_trans first.frames second.frames
  this frame exists_ :=
    (second.this frame (Nat.lt_of_lt_of_le exists_ first.frames)).trans
      (first.this frame exists_)
  objects := Nat.le_trans first.objects second.objects

theorem of_eq {machine later : Machine} (frames : later.frames = machine.frames)
    (objects : machine.objects.size ≤ later.objects.size) : machine.Precedes later :=
  ⟨Nat.le_of_eq (by rw [frames]), fun _ _ => by rw [frames], objects⟩

end Machine.Precedes

theorem Closure.Proper.isInitializer_iff {frames : Frames} {closure : Closure}
    (proper : closure.Proper frames) :
    closure.isInitializer = true ↔
      (∃ this, closure.BoundTo frames this) ∧ closure.routine.isNamedInit = true := by
  rw [proper.delivers, Bool.and_eq_true, Option.isSome_iff_exists]
  rfl

section Growth

variable {machine later : Machine}

theorem Class.Proper.mono {description : Class}
    (proper : description.Proper machine.frames) (precedes : machine.Precedes later) :
    description.Proper later.frames := by
  intro name method found
  obtain ⟨⟨routine, exists_, delivers⟩, named⟩ := proper name method found
  exact ⟨⟨routine, Nat.lt_of_lt_of_le exists_ precedes.frames, delivers⟩, named⟩

theorem Closure.Proper.mono {closure : Closure} (proper : closure.Proper machine.frames)
    (precedes : machine.Precedes later) : closure.Proper later.frames where
  routine := proper.routine
  exists_ := Nat.lt_of_lt_of_le proper.exists_ precedes.frames
  delivers := by rw [precedes.this _ proper.exists_, proper.delivers]

theorem Closure.Proper.boundTo_iff {closure : Closure} {this : Value}
    (proper : closure.Proper machine.frames) (precedes : machine.Precedes later) :
    closure.BoundTo later.frames this ↔ closure.BoundTo machine.frames this := by
  rw [BoundTo, BoundTo, precedes.this _ proper.exists_]

theorem Value.Proper.mono {value : Value} (proper : value.Proper machine)
    (precedes : machine.Precedes later) : value.Proper later := by
  cases value with
  | function identity closure => exact Closure.Proper.mono proper precedes
  | classValue description => exact Class.Proper.mono proper precedes
  | object identity description =>
      exact ⟨Nat.lt_of_lt_of_le proper.1 precedes.objects,
        Class.Proper.mono proper.2 precedes⟩
  | nil | bool | number | string | native => trivial

theorem Closure.ProperMethod.bind {frames : Frames} {method : Closure}
    (proper : method.ProperMethod frames) (this : Value) :
    Closure.Proper (frames.pushWith method.frame "this" this)
        { method with frame := frames.size } ∧
      Closure.BoundTo (frames.pushWith method.frame "this" this)
        { method with frame := frames.size } this := by
  have bound : (frames.pushWith method.frame "this" this).here? frames.size "this" =
      some this := by simp [Frames.here?_pushWith]
  refine ⟨⟨proper.routine, by simp, ?_⟩, bound⟩
  rw [bound, Option.isSome_some, Bool.true_and]
  exact proper.delivers

theorem Value.IsPlain.proper {value : Value} (isPlain : value.IsPlain) :
    value.Proper machine := by
  cases value with
  | nil | bool | number | string => trivial
  | function | native | classValue | object => exact isPlain.elim

theorem Class.proper_mk {identity : Nat} {name : String} {superclass : Option Class}
    {methods : Bindings Closure} {frames : Frames}
    (own : ∀ name method, methods.get? name = some method →
      method.ProperMethod frames ∧ method.routine.name.lexeme = name)
    (inherited : ∀ parent ∈ superclass, parent.Proper frames) :
    Class.Proper frames ⟨identity, name, superclass, methods⟩ := by
  intro asked method found
  exact forall_mk own inherited found

end Growth

/-! ## Machines -/

/-- All values that are found are proper, and what frames have as `this` are objects. The
current frame has no `this` of its own. -/
structure Machine.Proper (machine : Machine) : Prop where
  values : ∀ frame name value, machine.frames.here? frame name = some value →
    value.Proper machine
  fields : ∀ (object : Nat) bindings name value, machine.objects[object]? = some bindings →
    bindings.get? name = some value → value.Proper machine
  objects : ∀ frame value, machine.frames.here? frame "this" = some value → value.IsObject
  exists_ : machine.current < machine.frames.size
  open_ : machine.frames.here? machine.current "this" = none

structure Machine.LeadsTo (machine later : Machine) : Prop where
  proper : later.Proper
  precedes : machine.Precedes later
  current : later.current = machine.current

theorem Machine.LeadsTo.trans {machine between later : Machine}
    (first : machine.LeadsTo between) (second : between.LeadsTo later) :
    machine.LeadsTo later :=
  ⟨second.proper, first.precedes.trans second.precedes, second.current.trans first.current⟩

namespace Machine

variable {machine : Machine} {frame : FrameId} {name : String} {value : Value}

/-! ### Changes of frames -/

theorem Precedes.push (machine : Machine) (enclosing : Option FrameId) :
    machine.Precedes { machine with frames := machine.frames.push enclosing } where
  frames := by simp
  this frame exists_ := Frames.here?_push_of_lt _ exists_ _
  objects := Nat.le_refl _

theorem Precedes.define (machine : Machine) (frame : FrameId) (value : Value)
    (different : name ≠ "this") :
    machine.Precedes { machine with frames := machine.frames.define frame name value } where
  frames := by simp
  this other exists_ := by
    rcases Nat.lt_or_ge frame machine.frames.size with inside | missing
    · rw [Frames.here?_define _ inside, if_neg fun both => different both.2]
    · rw [Frames.define_of_size_le _ missing]
  objects := Nat.le_refl _

theorem Precedes.pushWith (machine : Machine) (enclosing : FrameId) (name : String)
    (value : Value) :
    machine.Precedes
      { machine with frames := machine.frames.pushWith enclosing name value } where
  frames := by simp
  this frame exists_ := by rw [Frames.here?_pushWith, if_neg (Nat.ne_of_lt exists_)]
  objects := Nat.le_refl _

namespace Proper

variable (proper : machine.Proper)

include proper

theorem inFrame (exists_ : frame < machine.frames.size)
    (open_ : machine.frames.here? frame "this" = none) :
    Proper { machine with current := frame } :=
  have same : machine.Precedes { machine with current := frame } :=
    .of_eq rfl (Nat.le_refl _)
  ⟨fun frame name value found => (proper.values frame name value found).mono same,
    fun object bindings name value isObject found =>
      (proper.fields object bindings name value isObject found).mono same,
    proper.objects, exists_, open_⟩

theorem later {later : Machine} (precedes : machine.Precedes later)
    (current : later.current = machine.current)
    (values : ∀ frame name value, later.frames.here? frame name = some value →
      machine.frames.here? frame name = some value ∨
        value.Proper later ∧ (name = "this" → value.IsObject))
    (fields : ∀ (object : Nat) bindings name value,
      later.objects[object]? = some bindings → bindings.get? name = some value →
        value.Proper machine) : later.Proper where
  values frame name value found := by
    rcases values frame name value found with before | new
    · exact (proper.values frame name value before).mono precedes
    · exact new.1
  fields object bindings name value isObject found :=
    (fields object bindings name value isObject found).mono precedes
  objects frame value found := by
    rcases values frame "this" value found with before | new
    · exact proper.objects frame value before
    · exact new.2 rfl
  exists_ := by
    rw [current]
    exact Nat.lt_of_lt_of_le proper.exists_ precedes.frames
  open_ := by rw [current, precedes.this _ proper.exists_, proper.open_]

theorem push (enclosing : Option FrameId) :
    Proper { machine with frames := machine.frames.push enclosing } := by
  refine proper.later (.push machine enclosing) rfl ?_ proper.fields
  intro frame name value found
  refine .inl ?_
  by_cases new : frame = machine.frames.size
  · subst new
    rw [Frames.here?_push_size] at found
    cases found
  · rwa [Frames.here?, Frames.namesOf_push, if_neg new] at found

theorem define (frame : FrameId) (properValue : value.Proper machine)
    (different : name ≠ "this") :
    Proper { machine with frames := machine.frames.define frame name value } := by
  have precedes := Precedes.define machine frame value different
  refine proper.later precedes rfl ?_ proper.fields
  intro other asked found isFound
  rcases Nat.lt_or_ge frame machine.frames.size with inside | missing
  · rw [Frames.here?_define _ inside] at isFound
    split at isFound
    case isTrue same =>
        cases isFound
        refine .inr ⟨properValue.mono precedes, fun this => ?_⟩
        exact absurd (same.2.trans this) different
    case isFalse => exact .inl isFound
  · rw [Frames.define_of_size_le _ missing] at isFound
    exact .inl isFound

theorem pushWith (enclosing : FrameId) (name : String) (properValue : value.Proper machine)
    (isObject : name = "this" → value.IsObject) :
    Proper { machine with frames := machine.frames.pushWith enclosing name value } := by
  have precedes := Precedes.pushWith machine enclosing name value
  refine proper.later precedes rfl ?_ proper.fields
  intro frame asked found isFound
  rw [Frames.here?_pushWith] at isFound
  split at isFound
  · split at isFound
    case isTrue same =>
        cases isFound
        exact .inr ⟨properValue.mono precedes, fun this => isObject (same.trans this)⟩
    case isFalse => cases isFound
  · exact .inl isFound

/-! ### Changes of objects -/

theorem pushObject :
    Proper { machine with objects := machine.objects.push Bindings.empty } := by
  refine proper.later (.of_eq rfl (by simp)) rfl (fun _ _ _ found => .inl found) ?_
  intro object bindings name value isObject found
  rw [Array.getElem?_push] at isObject
  split at isObject
  · cases isObject
    cases found
  · exact proper.fields object bindings name value isObject found

theorem setField (object : Nat) (name : String) (properValue : value.Proper machine) :
    Proper
      { machine with objects := machine.objects.modify object (·.bind name value) } := by
  refine proper.later (.of_eq rfl (by simp)) rfl (fun _ _ _ found => .inl found) ?_
  intro other bindings asked found isObject isFound
  rw [Array.getElem?_modify] at isObject
  split at isObject
  case isTrue same =>
      obtain ⟨before, isBefore, rfl⟩ := Option.map_eq_some_iff.mp isObject
      rw [Bindings.get?_bind] at isFound
      split at isFound
      · cases isFound
        exact properValue
      · exact proper.fields _ before asked found isBefore isFound
  case isFalse => exact proper.fields other bindings asked found isObject isFound

theorem still : machine.LeadsTo machine := ⟨proper, .refl machine, rfl⟩

theorem leadsTo {later : Machine} (frames : later.frames = machine.frames)
    (objects : later.objects = machine.objects)
    (current : later.current = machine.current) :
    machine.LeadsTo later := by
  have precedes : machine.Precedes later := .of_eq frames (Nat.le_of_eq (by rw [objects]))
  refine ⟨proper.later precedes current ?_ ?_, precedes, current⟩
  · rw [frames]
    exact fun _ _ _ found => .inl found
  · rw [objects]
    exact proper.fields

theorem of_eq {later : Machine} (frames : later.frames = machine.frames)
    (objects : later.objects = machine.objects)
    (current : later.current = machine.current) :
    later.Proper :=
  (proper.leadsTo frames objects current).proper

end Proper

end Machine

end LoxLang
