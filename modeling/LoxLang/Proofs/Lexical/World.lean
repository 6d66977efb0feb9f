import LoxLang.Proofs.Binding.Scopes
import LoxLang.Proofs.Comparison.Activities
import LoxLang.Proofs.Lexical.Machine

/-! # Frames and cells

A world tells which cell stands for a name in a frame. A frame may get more names while a
program runs, but the scopes of a closure were fixed when it was declared, so a closure
only ever sees the cells that its view has.
-/

namespace LoxLang.Lexical

/-- What is known about frames and cells at some point of a run. -/
structure World where
  settlement : Settlement
  frameCount : Nat
  cellCount : Nat
  enclosing : FrameId → Option FrameId
  /-- The cell that stands for a name in a frame. -/
  cellOf : FrameId → String → Option Cell
  Full : Cell → Prop
  positive : 0 < frameCount
  outermost : enclosing LoxLang.Machine.globals = none
  enclosing_lt : ∀ {frame outer}, enclosing frame = some outer → frame < frameCount
  frame_lt : ∀ {frame name cell}, cellOf frame name = some cell → frame < frameCount
  cell_lt : ∀ {frame name cell}, cellOf frame name = some cell → cell < cellCount
  injective : ∀ {frame name cell frame' name'}, cellOf frame name = some cell →
    cellOf frame' name' = some cell → frame = frame' ∧ name = name'
  globals : ∀ name, cellOf LoxLang.Machine.globals name = none

namespace World

/-- The later world has more frames and cells. Frames that exist already do not get more
names, except that `own` may be such a frame. -/
structure Grows (own : Option FrameId) (world later : World) : Prop where
  settled : later.settlement = world.settlement
  frameCount : world.frameCount ≤ later.frameCount
  enclosing : ∀ {frame outer}, world.enclosing frame = some outer →
    later.enclosing frame = some outer
  cellOf : ∀ {frame name cell}, world.cellOf frame name = some cell →
    later.cellOf frame name = some cell
  full : ∀ {cell}, world.Full cell → later.Full cell
  unchanged : ∀ frame, frame < world.frameCount → own ≠ some frame → ∀ name,
    later.cellOf frame name = world.cellOf frame name

variable {own : Option FrameId} {world later latest : World}

theorem Grows.settlement (grows : Grows own world later) :
    world.settlement.Extends later.settlement := grows.settled ▸ .refl _

theorem Grows.refl (world : World) : Grows own world world :=
  ⟨rfl, Nat.le_refl _, id, id, id, fun _ _ _ _ => rfl⟩

theorem Grows.trans (first : Grows own world later) (second : Grows own later latest) :
    Grows own world latest where
  settled := second.settled.trans first.settled
  frameCount := Nat.le_trans first.frameCount second.frameCount
  enclosing found := second.enclosing (first.enclosing found)
  cellOf found := second.cellOf (first.cellOf found)
  full found := second.full (first.full found)
  unchanged frame exists_ other name :=
    (second.unchanged frame (Nat.lt_of_lt_of_le exists_ first.frameCount) other
      name).trans (first.unchanged frame exists_ other name)

theorem Grows.ofNew {frame : FrameId} (grows : Grows (some frame) world later)
    (new : world.frameCount ≤ frame) : Grows own world later :=
  { grows with
    unchanged := fun other exists_ _ => grows.unchanged other exists_ (by
      rintro ⟨⟩
      exact absurd exists_ (Nat.not_lt.mpr new)) }

theorem Grows.ofNone (grows : Grows none world later) : Grows own world later :=
  { grows with unchanged := fun frame exists_ _ => grows.unchanged frame exists_ nofun }

end World

/-- The names that the scopes know are in the frames from `frame` outward, and the view
has their cells. -/
inductive Aligned (world : World) : Scopes → FrameId → View → Prop
  | topLevel : Aligned world [] LoxLang.Machine.globals .topLevel
  | inside {scope : Scope} {outer : Scopes} {frame enclosing : FrameId} {outerView : View}
      {cells : Bindings Cell} (outerAligned : Aligned world outer enclosing outerView)
      (enclosed : world.enclosing frame = some enclosing)
      (here : ∀ name complete, scope.get? name = some complete →
        ∃ cell, world.cellOf frame name = some cell ∧ cells.get? name = some cell ∧
          (complete = true → world.Full cell))
      (elsewhere : ∀ name, scope.get? name = none →
        cells.get? name = outerView.cell? name) :
      Aligned world (scope :: outer) frame (.inside cells)

namespace Aligned

variable {own : Option FrameId} {world later : World} {scopes : Scopes} {frame : FrameId}
  {view : View}

theorem mono (aligned : Aligned world scopes frame view) (grows : world.Grows own later) :
    Aligned later scopes frame view := by
  induction aligned with
  | topLevel => exact .topLevel
  | inside _ enclosed here elsewhere outerAligned =>
      refine .inside outerAligned (grows.enclosing enclosed) ?_ elsewhere
      intro name complete declared
      rcases here name complete declared with ⟨cell, inFrame, inView, full⟩
      exact ⟨cell, grows.cellOf inFrame, inView, fun complete =>
        grows.full (full complete)⟩

theorem frame_lt (aligned : Aligned world scopes frame view) :
    frame < world.frameCount := by
  cases aligned with
  | topLevel => exact world.positive
  | inside _ enclosed _ _ => exact world.enclosing_lt enclosed

end Aligned

/-! ## What corresponds -/

namespace World

variable (world : World)

/-- Functions correspond if the frame of one is aligned with the view of the other. An
initializer has its object right there. -/
structure Functions (closure : Closure) (closure' : Closure View) : Prop where
  routine : closure.routine = closure'.routine
  isInitializer : closure.isInitializer = closure'.isInitializer
  home : ∃ scopes, Aligned world scopes closure.frame closure'.frame ∧
    closure.routine.Settled world.settlement scopes ∧
      (closure.isInitializer → scopes.head?.bind (·.get? "this") = some true)

/-- Methods are still without the scope of their object. -/
structure Methods (closure : Closure) (closure' : Closure View) : Prop where
  routine : closure.routine = closure'.routine
  isInitializer : closure.isInitializer = closure'.isInitializer
  home : ∃ scopes, Aligned world scopes closure.frame closure'.frame ∧
    closure.routine.Settled world.settlement (scopes.nest ["this"])

abbrev Values : Value → Value View → Prop := Value.Related world.Functions world.Methods

abbrev Classes : Class → Class View → Prop := Class.Related world.Methods

variable {world} {own : Option FrameId} {later : World}

theorem Functions.mono {closure : Closure} {closure' : Closure View}
    (same : world.Functions closure closure') (grows : world.Grows own later) :
    later.Functions closure closure' := by
  rcases same with ⟨routine, isInitializer, scopes, aligned, settled, this⟩
  exact ⟨routine, isInitializer, scopes, aligned.mono grows,
    Routine.settled_mono grows.settlement _ _ settled, this⟩

theorem Methods.mono {closure : Closure} {closure' : Closure View}
    (same : world.Methods closure closure') (grows : world.Grows own later) :
    later.Methods closure closure' := by
  rcases same with ⟨routine, isInitializer, scopes, aligned, settled⟩
  exact ⟨routine, isInitializer, scopes, aligned.mono grows,
    Routine.settled_mono grows.settlement _ _ settled⟩

theorem Classes.mono {description : Class} {description' : Class View}
    (same : world.Classes description description') (grows : world.Grows own later) :
    later.Classes description description' :=
  same.imp fun _ _ methods => methods.mono grows

theorem Values.mono {value : Value} {value' : Value View}
    (same : world.Values value value') (grows : world.Grows own later) :
    later.Values value value' :=
  same.imp (fun _ _ functions => functions.mono grows)
    (fun _ _ methods => methods.mono grows)

theorem Values.text {value : Value} {value' : Value View}
    (same : world.Values value value') : value.text = value'.text :=
  Value.Related.text same fun _ _ functions => by rw [functions.routine]

theorem Values.arity? {value : Value} {value' : Value View}
    (same : world.Values value value') : value.arity? = value'.arity? :=
  Value.Related.arity? same (fun _ _ functions => by
    simp only [Closure.arity, functions.routine])
    fun _ _ methods => by simp only [Closure.arity, methods.routine]

/-- The two machines correspond, and the machine with frames is in the frame given. -/
structure Holds (world : World) (frame : FrameId) (machine : LoxLang.Machine)
    (machine' : Machine) : Prop where
  distances : machine.distances = world.settlement.distances
  current : machine.current = frame
  frame_lt : frame < world.frameCount
  frameCount : machine.frames.size = world.frameCount
  enclosing : ∀ frame, machine.frames.enclosing? frame = world.enclosing frame
  cellCount : machine'.cells.size = world.cellCount
  cells : ∀ {frame name cell}, world.cellOf frame name = some cell →
    Option.Rel world.Values (machine.frames.here? frame name) machine'.cells[cell]?.join
  full : ∀ {cell}, world.Full cell → machine'.cells[cell]?.join.isSome
  unnamed : ∀ {frame name}, frame ≠ LoxLang.Machine.globals →
    world.cellOf frame name = none → machine.frames.here? frame name = none
  supers : ∀ {frame value}, frame ≠ LoxLang.Machine.globals →
    machine.frames.here? frame "super" = some value →
      ∃ description, value = .classValue description
  globals : Bindings.Related world.Values (machine.frames.namesOf LoxLang.Machine.globals)
    machine'.globals
  objects : ∀ object : Nat, Option.Rel (Bindings.Related world.Values)
    machine.objects[object]? machine'.objects[object]?
  objectCount : machine.objects.size = machine'.objects.size
  printed : machine.printed = machine'.printed
  identities : machine.identities = machine'.identities
  clock : machine.clock = machine'.clock

end World

/-- The comparison of the machine with frames, in one of its frames, to the machine with
cells. The frame `own` may get names meanwhile. -/
def comparison (frame : FrameId) (own : Option FrameId) :
    Comparison LoxLang.Machine Machine World where
  Grows := World.Grows own
  Holds world := world.Holds frame
  Words word word' := word = word'
  defects := False
  refl := World.Grows.refl
  trans := World.Grows.trans

end LoxLang.Lexical
