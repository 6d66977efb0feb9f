import LoxLang.Proofs.Names.Growth
import LoxLang.Proofs.Store.Links

/-! # Names are looked up outward

A frame is enclosed by an earlier one, so the frames around it are a finite chain. A name is
read from the nearest frame of the chain that has it, and assigned in the same frame. The
assignment changes this one binding, which is seen from all frames for which the same frame
is the nearest one, and from no others.
-/

namespace LoxLang

/-! ## Frames that operations make -/

namespace Frames

/-- Frames that are made by operations on frames that exist. What fails changes nothing and
makes no other frames. -/
inductive Built : Frames → Prop
  | empty : Built Frames.empty
  | push {frames : Frames} {enclosing : Option FrameId} (built : Built frames)
      (exists_ : ∀ outer ∈ enclosing, outer < frames.size) : Built (frames.push enclosing)
  | define {frames : Frames} {frame : FrameId} (built : Built frames)
      (exists_ : frame < frames.size) (name : String) (value : Value) :
      Built (frames.define frame name value)
  | assign {frames later : Frames} {frame : FrameId} {name : String} {value : Value}
      (built : Built frames) (assigned : frames.assign? frame name value = some later) :
      Built later
  | assignAt {frames : Frames} {frame home : FrameId} {steps : Nat} (built : Built frames)
      (found : frames.ancestor? frame steps = some home) (name : String) (value : Value) :
      Built (frames.define home name value)

def Ordered (frames : Frames) : Prop :=
  ∀ frame outer, frames.enclosing? frame = some outer → outer < frame

theorem Built.ordered {frames : Frames} (built : frames.Built) : frames.Ordered := by
  induction built with
  | empty => exact nofun
  | @push frames enclosing _ exists_ ordered =>
      intro frame outer enclosed
      rw [enclosing?_push] at enclosed
      split at enclosed
      case isTrue new =>
          subst new
          exact exists_ outer enclosed
      case isFalse => exact ordered frame outer enclosed
  | define _ _ _ _ ordered =>
      intro frame outer enclosed
      rw [enclosing?_define] at enclosed
      exact ordered frame outer enclosed
  | assign _ assigned ordered =>
      intro frame outer enclosed
      rcases Option.map_eq_some_iff.mp assigned with ⟨home, -, rfl⟩
      rw [enclosing?_define] at enclosed
      exact ordered frame outer enclosed
  | assignAt _ _ _ _ ordered =>
      intro frame outer enclosed
      rw [enclosing?_define] at enclosed
      exact ordered frame outer enclosed

/-! ## The nearest frame -/

abbrev Encloses (frames : Frames) : FrameId → Nat → FrameId → Prop :=
  Linked frames.enclosing?

/-- Of the frames outward from a frame, one a number of steps away is the nearest that has
the name. -/
abbrev NearestWith (frames : Frames) (name : String) : FrameId → Nat → FrameId → Prop :=
  Nearest frames.enclosing? (frames.Has · name)

variable {frames later : Frames} {frame home outer : FrameId} {name : String} {value : Value}
  {steps : Nat}

theorem ancestor?_of_encloses (encloses : frames.Encloses frame steps outer) :
    frames.ancestor? frame steps = some outer := by
  induction encloses with
  | self => rfl
  | link first _ induction => rw [ancestor?_succ first, induction]

theorem encloses_of_mem_chainWithin {limit : Nat}
    (member : outer ∈ frames.chainWithin limit frame) :
    ∃ steps, frames.Encloses frame steps outer := by
  induction limit generalizing frame with
  | zero => cases member
  | succ limit induction =>
      rw [chainWithin, List.mem_cons] at member
      rcases member with rfl | member
      · exact ⟨0, .self _⟩
      · split at member
        case h_1 middle enclosed =>
            rcases induction member with ⟨steps, encloses⟩
            exact ⟨steps + 1, .link enclosed encloses⟩
        case h_2 => cases member

section Ordered

variable (ordered : frames.Ordered)

include ordered

theorem find_chainWithin {limit : Nat} (enough : frame < limit)
    (nearest : frames.NearestWith name frame steps home) :
    (frames.chainWithin limit frame).find?
      (fun candidate => (frames.namesOf candidate).contains name) = some home := by
  induction limit generalizing frame steps with
  | zero => exact absurd enough (Nat.not_lt_zero frame)
  | succ limit induction =>
      rw [chainWithin]
      by_cases has : frames.Has frame name
      · rw [List.find?_cons_of_pos (by exact has), (nearest.eq_start has).2]
      · rcases nearest.exists_next has with ⟨middle, fewer, enclosed, -, nearest⟩
        have earlier := ordered frame middle enclosed
        rw [List.find?_cons_of_neg (by exact has), enclosed]
        exact induction (Nat.lt_of_lt_of_le earlier (Nat.le_of_lt_succ enough)) nearest

theorem home?_eq_some_iff (exists_ : frame < frames.size) :
    frames.home? frame name = some home ↔
      ∃ steps, frames.NearestWith name frame steps home := by
  constructor
  · intro found
    rcases nearest_or_none frames.enclosing? (frames.Has · name) frame with
      ⟨steps, other, nearest⟩ | none_
    · have same := (find_chainWithin ordered exists_ nearest).symm.trans found
      exact ⟨steps, Option.some.inj same ▸ nearest⟩
    · have member := List.mem_of_find?_eq_some found
      rcases encloses_of_mem_chainWithin member with ⟨steps, encloses⟩
      exact absurd (List.find?_some found) (none_ steps home encloses)
  · intro nearest
    rcases nearest with ⟨steps, nearest⟩
    exact find_chainWithin ordered exists_ nearest

theorem home?_eq_none (exists_ : frame < frames.size)
    (none_ : ∀ steps outer, frames.Encloses frame steps outer → ¬frames.Has outer name) :
    frames.home? frame name = none := by
  cases found : frames.home? frame name with
  | none => rfl
  | some home =>
      rcases (home?_eq_some_iff ordered exists_).mp found with ⟨steps, nearest⟩
      exact absurd nearest.holds (none_ steps home nearest.linked)

end Ordered

/-! ## Changing one binding -/

/-- The later frames are the same, but for the value of one name that one of them has. -/
structure Rebinds (frames later : Frames) (home : FrameId) (name : String) (value : Value) :
    Prop where
  size : later.size = frames.size
  enclosing : ∀ frame, later.enclosing? frame = frames.enclosing? frame
  here : ∀ frame asked, later.here? frame asked =
    if frame = home ∧ asked = name then some value else frames.here? frame asked
  names : ∀ frame, (later.namesOf frame).names = (frames.namesOf frame).names

theorem rebinds_define (has : frames.Has home name) (value : Value) :
    frames.Rebinds (frames.define home name value) home name value where
  size := size_define frames
  enclosing _ := enclosing?_define frames
  here frame asked := by
    rw [here?_define frames (lt_size_of_has has)]
    simp only [eq_comm]
  names frame := by
    rw [namesOf_define frames (lt_size_of_has has)]
    split
    case isTrue same => rw [Bindings.names_bind _ has, same]
    case isFalse => rfl

namespace Rebinds

variable (rebinds : frames.Rebinds later home name value)

include rebinds

theorem has_iff (has : frames.Has home name) (frame : FrameId) (asked : String) :
    later.Has frame asked ↔ frames.Has frame asked := by
  have seen := rebinds.here frame asked
  rw [here?, here?] at seen
  rw [Has, Has, Bindings.contains, Bindings.contains, seen]
  split
  case isTrue same =>
      rcases same with ⟨rfl, rfl⟩
      exact iff_of_true rfl has
  case isFalse => rfl

theorem get?_eq (ordered : frames.Ordered) (has : frames.Has home name) {other : FrameId}
    (exists_ : other < frames.size) (asked : String) [Decidable
      (asked = name ∧ ∃ steps, frames.NearestWith name other steps home)] :
    later.get? other asked =
      if asked = name ∧ ∃ steps, frames.NearestWith name other steps home then some value
      else frames.get? other asked := by
  have contains : ∀ frame name, (later.namesOf frame).contains name =
      (frames.namesOf frame).contains name :=
    fun frame asked => Bool.eq_iff_iff.mpr (rebinds.has_iff has frame asked)
  rw [get?, home?_congr rebinds.enclosing rebinds.size contains, get?]
  split
  case isTrue same =>
      rcases same with ⟨rfl, nearest⟩
      rw [(home?_eq_some_iff ordered exists_).mpr nearest, Option.bind_some, rebinds.here,
        if_pos ⟨rfl, rfl⟩]
  case isFalse different =>
      apply Option.bind_congr
      intro found isFound
      rw [rebinds.here, if_neg]
      intro same
      rcases same with ⟨rfl, rfl⟩
      exact different ⟨rfl, (home?_eq_some_iff ordered exists_).mp isFound⟩

end Rebinds

end Frames

/-! ## Reading and assigning from any frame -/

namespace Action

def valueFrom (frame : FrameId) (name : Occurrence) : Action Value := fun machine =>
  match machine.frames.get? frame name.lexeme with
  | some value => .ok value machine
  | none => .error (.error ⟨name, .undefinedVariable name.lexeme⟩) machine

def assignFrom (frame : FrameId) (name : Occurrence) (value : Value) : Action Unit :=
  fun machine =>
    match machine.frames.assign? frame name.lexeme value with
    | some frames => .ok () { machine with frames }
    | none => .error (.error ⟨name, .undefinedVariable name.lexeme⟩) machine

def valueAt (frame : FrameId) (steps : Nat) (name : String) : Action Value := fun machine =>
  match machine.frames.ancestor? frame steps with
  | some found => valueIn found name machine
  | none => .error (.defect .frameMissing) machine

def assignAt (frame : FrameId) (steps : Nat) (name : String) (value : Value) : Action Unit :=
  fun machine =>
    match machine.frames.ancestor? frame steps with
    | some found => defineIn found name value machine
    | none => .error (.defect .frameMissing) machine

theorem read_eq (reference : Occurrence) (machine : Machine) :
    read reference machine = match machine.distances.get? reference.place with
      | some distance => valueAt machine.current distance reference.lexeme machine
      | none => valueFrom Machine.globals reference machine := by
  simp only [read, distanceOf, Bind.bind, EStateM.bind]
  cases machine.distances.get? reference.place with
  | none => rfl
  | some distance =>
      simp only [localValue, frameAt, valueAt, Bind.bind, EStateM.bind]
      cases machine.frames.ancestor? machine.current distance <;> rfl

theorem assign_eq (reference : Occurrence) (value : Value) (machine : Machine) :
    assign reference value machine = match machine.distances.get? reference.place with
      | some distance => assignAt machine.current distance reference.lexeme value machine
      | none => assignFrom Machine.globals reference value machine := by
  simp only [assign, distanceOf, Bind.bind, EStateM.bind]
  cases machine.distances.get? reference.place with
  | none => rfl
  | some distance =>
      simp only [frameAt, assignAt, EStateM.bind]
      cases machine.frames.ancestor? machine.current distance <;> rfl

def delivers (action : Action α) (machine : Machine) : Except Stop α :=
  match action machine with
  | .ok result _ => .ok result
  | .error stop _ => .error stop

theorem delivers_valueFrom (frame : FrameId) (name : Occurrence) (machine : Machine) :
    delivers (valueFrom frame name) machine =
      match machine.frames.get? frame name.lexeme with
      | some value => .ok value
      | none => .error (.error ⟨name, .undefinedVariable name.lexeme⟩) := by
  rw [delivers, valueFrom]
  cases machine.frames.get? frame name.lexeme <;> rfl

section Outward

variable {machine : Machine} {frame home : FrameId} {name : Occurrence} {steps : Nat}
  (ordered : machine.frames.Ordered) (exists_ : frame < machine.frames.size)

include ordered exists_

theorem value_of_nearest
    (nearest : machine.frames.NearestWith name.lexeme frame steps home) :
    ∃ found, machine.frames.here? home name.lexeme = some found ∧
      valueFrom frame name machine = .ok found machine ∧
      valueAt frame steps name.lexeme machine = .ok found machine := by
  have isHome := (Frames.home?_eq_some_iff ordered exists_).mpr ⟨steps, nearest⟩
  rcases Option.isSome_iff_exists.mp nearest.holds with ⟨found, isFound⟩
  have here : machine.frames.here? home name.lexeme = some found := isFound
  refine ⟨found, here, ?_, ?_⟩
  · simp only [valueFrom, Frames.get?, isHome, Option.bind_some, here]
  · simp only [valueAt, Frames.ancestor?_of_encloses nearest.linked, valueIn, here]

theorem assignment_of_nearest
    (nearest : machine.frames.NearestWith name.lexeme frame steps home) (value : Value) :
    assignFrom frame name value machine =
        .ok () { machine with frames := machine.frames.define home name.lexeme value } ∧
      assignAt frame steps name.lexeme value machine =
        .ok () { machine with frames := machine.frames.define home name.lexeme value } := by
  have isHome := (Frames.home?_eq_some_iff ordered exists_).mpr ⟨steps, nearest⟩
  constructor
  · simp only [assignFrom, Frames.assign?, isHome, Option.map_some]
  · simp only [assignAt, Frames.ancestor?_of_encloses nearest.linked, defineIn]

theorem stopped_of_none
    (none_ : ∀ steps outer, machine.frames.Encloses frame steps outer →
      ¬machine.frames.Has outer name.lexeme) (value : Value) :
    valueFrom frame name machine =
        .error (.error ⟨name, .undefinedVariable name.lexeme⟩) machine ∧
      assignFrom frame name value machine =
        .error (.error ⟨name, .undefinedVariable name.lexeme⟩) machine := by
  have noHome := Frames.home?_eq_none ordered exists_ none_
  constructor
  · simp only [valueFrom, Frames.get?, noHome, Option.bind_none]
  · simp only [assignFrom, Frames.assign?, noHome, Option.map_none]

omit exists_ in
/-- After a binding was changed, its new value is read from where its frame is the nearest
one with the name, and everything else is read as before. -/
theorem delivers_after_rebinding {later : Frames} {value : Value}
    (rebinds : machine.frames.Rebinds later home name.lexeme value)
    (has : machine.frames.Has home name.lexeme) {other : FrameId}
    (otherExists : other < machine.frames.size) (asked : Occurrence) :
    ((asked.lexeme = name.lexeme ∧
        ∃ steps, machine.frames.NearestWith name.lexeme other steps home) →
      delivers (valueFrom other asked) { machine with frames := later } = .ok value) ∧
    (¬(asked.lexeme = name.lexeme ∧
        ∃ steps, machine.frames.NearestWith name.lexeme other steps home) →
      delivers (valueFrom other asked) { machine with frames := later } =
        delivers (valueFrom other asked) machine) := by
  classical
  have seen := rebinds.get?_eq ordered has otherExists asked.lexeme
  constructor
  · intro same
    rw [delivers_valueFrom, seen, if_pos same]
  · intro different
    rw [delivers_valueFrom, delivers_valueFrom, seen, if_neg different]

end Outward

/-- From any frame, a name is read and assigned in the nearest frame that has it, or
undefined if there is no such frame. What is assigned is read from then on wherever this
frame is the nearest one, and nothing else changes. Going to the frame by its number of
steps comes to the same. -/
theorem names_are_found_outward {machine : Machine} (built : machine.frames.Built)
    {frame : FrameId} (exists_ : frame < machine.frames.size) (name : Occurrence)
    (value : Value) :
    ((∃ steps home, machine.frames.NearestWith name.lexeme frame steps home) ∨
      ∀ steps outer, machine.frames.Encloses frame steps outer →
        ¬machine.frames.Has outer name.lexeme) ∧
    (∀ steps home, machine.frames.NearestWith name.lexeme frame steps home →
      (∃ found, machine.frames.here? home name.lexeme = some found ∧
        valueFrom frame name machine = .ok found machine ∧
        valueAt frame steps name.lexeme machine = .ok found machine) ∧
      ∃ later : Frames,
        assignFrom frame name value machine = .ok () { machine with frames := later } ∧
        assignAt frame steps name.lexeme value machine =
          .ok () { machine with frames := later } ∧
        machine.frames.Rebinds later home name.lexeme value ∧
        ∀ other < machine.frames.size, ∀ asked : Occurrence,
          ((asked.lexeme = name.lexeme ∧
              ∃ steps, machine.frames.NearestWith name.lexeme other steps home) →
            delivers (valueFrom other asked) { machine with frames := later } =
              .ok value) ∧
          (¬(asked.lexeme = name.lexeme ∧
              ∃ steps, machine.frames.NearestWith name.lexeme other steps home) →
            delivers (valueFrom other asked) { machine with frames := later } =
              delivers (valueFrom other asked) machine)) ∧
    ((∀ steps outer, machine.frames.Encloses frame steps outer →
        ¬machine.frames.Has outer name.lexeme) →
      ∃ error : RuntimeError, error.token = name ∧
        error.message = s!"Undefined variable '{name.lexeme}'." ∧
        valueFrom frame name machine = .error (.error error) machine ∧
        assignFrom frame name value machine = .error (.error error) machine) := by
  have ordered := built.ordered
  refine ⟨nearest_or_none _ _ frame, ?found, ?missing⟩
  case found =>
      intro steps home nearest
      refine ⟨value_of_nearest ordered exists_ nearest, _,
        (assignment_of_nearest ordered exists_ nearest value).1,
        (assignment_of_nearest ordered exists_ nearest value).2,
        Frames.rebinds_define nearest.holds value, ?_⟩
      intro other otherExists asked
      exact delivers_after_rebinding ordered (Frames.rebinds_define nearest.holds value)
        nearest.holds otherExists asked
  case missing =>
      intro none_
      rcases stopped_of_none ordered exists_ none_ value with ⟨unread, unassigned⟩
      exact ⟨_, rfl, rfl, unread, unassigned⟩

def sharingFrames : Frames :=
  ((((Frames.empty.push none).define 0 "x" (.string "outer")).push (some 0)).define 1 "x"
    (.string "inner")).push (some 0) |>.push (some 1)

theorem names_are_found_outward_shared :
    sharingFrames.Built ∧ 2 < sharingFrames.size ∧
      ∃ later : Frames,
        assignFrom 2 ⟨.identifier "x" 1, 0⟩ (.string "new")
            { Machine.bare 0 with frames := sharingFrames } =
          .ok () { Machine.bare 0 with frames := later } ∧
        delivers (valueFrom 0 ⟨.identifier "x" 2, 1⟩)
          { Machine.bare 0 with frames := later } = .ok (.string "new") ∧
        delivers (valueFrom 3 ⟨.identifier "x" 3, 2⟩)
          { Machine.bare 0 with frames := later } = .ok (.string "inner") := by
  have built : sharingFrames.Built := by
    refine .push (.push (.define (.push (.define (.push .empty ?_) ?_ _ _) ?_) ?_ _ _) ?_) ?_
    all_goals decide
  have exists_ : 2 < sharingFrames.size := by decide
  have nearest : sharingFrames.NearestWith "x" 2 1 0 :=
    .link (by decide) rfl (.self (by decide))
  have shadowed : sharingFrames.NearestWith "x" 3 1 1 :=
    .link (by decide) rfl (.self (by decide))
  rcases (@names_are_found_outward { Machine.bare 0 with frames := sharingFrames } built 2
    exists_ ⟨.identifier "x" 1, 0⟩ (.string "new")).2.1 1 0 nearest with
    ⟨-, later, assigned, -, -, seen⟩
  refine ⟨built, exists_, later, assigned, ?_, ?_⟩
  · exact (seen 0 (by decide) ⟨.identifier "x" 2, 1⟩).1 ⟨rfl, 0, .self (by decide)⟩
  · refine ((seen 3 (by decide) ⟨.identifier "x" 3, 2⟩).2 ?_).trans rfl
    intro same
    rcases same with ⟨-, steps, toRoot⟩
    cases (shadowed.unique toRoot).2

end Action

end LoxLang
