import LoxLang.Machine.Objects
import LoxLang.Proofs.Comparison.Activities
import LoxLang.Proofs.Store.Frames
import LoxLang.Proofs.Tree.Moves

/-! # Machines with moved words

Two machines of which one has the same routines as the other, but with their words moved,
and has printed something before. Whatever one does the other does too; only the words at
which they stop may be different, and then one is where the other was moved to.
-/

namespace LoxLang.Moved

open Comparison

/-- What stays fixed while two machines are compared. -/
structure Setting where
  move : Occurrence → Occurrence
  limit : Nat
  distances : Distances
  distances' : Distances
  /-- What the second machine has printed before. -/
  before : Array String
  same : SameWords move
  agree : ∀ word : Occurrence, word.place < limit →
    distances'.get? (move word).place = distances.get? word.place

namespace Setting

variable (setting : Setting)

def Knows (references : List Reference) : Prop :=
  ∀ reference ∈ references, reference.occurrence.place < setting.limit

structure Closures (closure closure' : Closure) : Prop where
  routine : closure'.routine = closure.routine.map setting.move
  frame : closure'.frame = closure.frame
  isInitializer : closure'.isInitializer = closure.isInitializer
  known : setting.Knows closure.routine.references

abbrev Values : Value → Value → Prop := Value.Related setting.Closures setting.Closures

abbrev Classes : Class → Class → Prop := Class.Related setting.Closures

structure Holds (machine machine' : Machine) : Prop where
  size : machine'.frames.size = machine.frames.size
  enclosing : ∀ frame, machine'.frames.enclosing? frame = machine.frames.enclosing? frame
  names : ∀ frame, Bindings.Related setting.Values (machine.frames.namesOf frame)
    (machine'.frames.namesOf frame)
  current : machine'.current = machine.current
  objects : ∀ object : Nat, Option.Rel (Bindings.Related setting.Values)
    machine.objects[object]? machine'.objects[object]?
  objectCount : machine'.objects.size = machine.objects.size
  distances : machine.distances = setting.distances
  distances' : machine'.distances = setting.distances'
  printed : machine'.printed = setting.before ++ machine.printed
  identities : machine'.identities = machine.identities
  clock : machine'.clock = machine.clock

def comparison : Comparison Machine Machine Unit where
  Grows _ _ := True
  Holds _ := setting.Holds
  Words word word' := word' = setting.move word
  defects := True
  refl _ := trivial
  trans _ _ := trivial

abbrev Follows {α α' : Type} (left : Action α) (right : Action α')
    (post : α → α' → Prop) : Prop :=
  setting.comparison.Follows () left right fun _ => post

end Setting

variable {setting : Setting}

theorem Setting.Closures.arity {closure closure' : Closure}
    (same : setting.Closures closure closure') : closure.arity = closure'.arity := by
  rw [Closure.arity, Closure.arity, same.routine, Routine.parameters_map, List.length_map]

theorem Setting.Values.arity? {value value' : Value}
    (same : setting.Values value value') : value.arity? = value'.arity? :=
  Value.Related.arity? same (fun _ _ closures => closures.arity) fun _ _ closures =>
    closures.arity

theorem Setting.Values.text {value value' : Value} (same : setting.Values value value') :
    value.text = value'.text :=
  Value.Related.text same fun _ _ closures => by
    rw [closures.routine, Routine.name_map, setting.same.lexeme]

section Steps

variable {machine machine' : Machine}

/-! ## Ends -/

section Ends

variable {α α' : Type} {post : Unit → α → α' → Prop}
  (holds : setting.comparison.Holds () machine machine')

include holds

theorem ends_ok {result : α} {result' : α'} (results : post () result result') :
    setting.comparison.Ends () post (.ok result machine) (.ok result' machine') :=
  .ok (show setting.comparison.Grows () () from trivial) holds results

theorem ends_error (word : Occurrence) (cause : RuntimeCause) :
    setting.comparison.Ends () post (.error (.error ⟨word, cause⟩) machine)
      (.error (.error ⟨setting.move word, cause⟩) machine') :=
  .error (show setting.comparison.Grows () () from trivial) holds
    (.error (show setting.comparison.Words word (setting.move word) from rfl) cause)

theorem ends_defect (defect : Defect) :
    setting.comparison.Ends () post (.error (.defect defect) machine)
      (.error (.defect defect) machine') :=
  .error (show setting.comparison.Grows () () from trivial) holds (.defect trivial defect)

end Ends

/-! ## Frames -/

theorem Setting.Holds.push (holds : setting.Holds machine machine') (outer : FrameId) :
    setting.Holds { machine with frames := machine.frames.push (some outer) }
      { machine' with frames := machine'.frames.push (some outer) } :=
  { holds with
    size := by simp only [Frames.size_push, holds.size]
    enclosing := by
      intro frame
      simp only [Frames.enclosing?_push, holds.size, holds.enclosing]
    names := by
      intro frame
      rw [Frames.namesOf_push, Frames.namesOf_push, holds.size]
      split
      · exact .empty
      · exact holds.names frame }

theorem Setting.Holds.define (holds : setting.Holds machine machine') (frame : FrameId)
    (name : String) {value value' : Value} (values : setting.Values value value') :
    setting.Holds { machine with frames := machine.frames.define frame name value }
      { machine' with frames := machine'.frames.define frame name value' } :=
  { holds with
    size := by simp only [Frames.size_define, holds.size]
    enclosing := fun other => by simp only [Frames.enclosing?_define, holds.enclosing]
    names := by
      intro other
      simp only
      rcases Nat.lt_or_ge frame machine.frames.size with exists_ | missing
      · rw [Frames.namesOf_define _ exists_,
          Frames.namesOf_define _ (holds.size.symm ▸ exists_)]
        split
        · exact (holds.names frame).bind name values
        · exact holds.names other
      · rw [Frames.define_of_size_le _ missing,
          Frames.define_of_size_le _ (holds.size.symm ▸ missing)]
        exact holds.names other }

theorem Setting.Holds.here? (holds : setting.Holds machine machine') (frame : FrameId)
    (name : String) :
    Option.Rel setting.Values (machine.frames.here? frame name)
      (machine'.frames.here? frame name) :=
  (holds.names frame).get? name

theorem Setting.Holds.home? (holds : setting.Holds machine machine') (frame : FrameId)
    (name : String) :
    machine'.frames.home? frame name = machine.frames.home? frame name :=
  Frames.home?_congr holds.enclosing holds.size
    (fun frame name => ((holds.names frame).contains name).symm) frame name

theorem follows_newFrame (outer : FrameId) :
    setting.Follows (Action.newFrame outer) (Action.newFrame outer)
      fun frame frame' => frame' = frame :=
  fun _ _ holds => ends_ok (Setting.Holds.push holds outer) (Setting.Holds.size holds)

theorem follows_currentFrame :
    setting.Follows Action.currentFrame Action.currentFrame fun frame frame' =>
      frame' = frame :=
  fun _ _ holds => ends_ok holds (Setting.Holds.current holds)

theorem follows_defineIn (frame : FrameId) (name : String) {value value' : Value}
    (values : setting.Values value value') :
    setting.Follows (Action.defineIn frame name value) (Action.defineIn frame name value')
      fun _ _ => True :=
  fun _ _ holds => ends_ok (Setting.Holds.define holds frame name values) trivial

theorem follows_define (name : String) {value value' : Value}
    (values : setting.Values value value') :
    setting.Follows (Action.define name value) (Action.define name value') fun _ _ =>
      True := by
  rw [Action.define]
  apply follows_currentFrame.bind
  rintro _ _ frame - rfl
  exact follows_defineIn frame name values

theorem follows_defineAll (frame : FrameId) :
    ∀ {names : List Occurrence} {values values' : List Value},
      List.Forall₂ setting.Values values values' →
        setting.Follows (Action.defineAll frame names values)
          (Action.defineAll frame (names.map setting.move) values') fun _ _ => True
  | [], _, _, _ => by
      rw [List.map_nil, Action.defineAll, Action.defineAll]
      · exact .pure trivial
      all_goals exact fun _ _ _ _ => nofun
  | name :: names, _, _, .nil => .pure trivial
  | name :: names, _, _, .cons values others => by
      rw [List.map_cons, Action.defineAll, Action.defineAll, setting.same.lexeme]
      apply (follows_defineIn frame name.lexeme values).bind
      exact fun _ _ _ _ _ => follows_defineAll frame others

theorem follows_within (frame : FrameId) {α α' : Type} {left : Action α}
    {right : Action α'} {post : α → α' → Prop}
    (follows : setting.Follows left right post) :
    setting.Follows (Action.within frame left) (Action.within frame right) post := by
  intro machine machine' holds
  have ends :=
    follows { machine with current := frame } { machine' with current := frame }
    { holds with current := rfl }
  have current : machine'.current = machine.current := Setting.Holds.current holds
  have back : ∀ {machine₁ machine₁' : Machine},
      setting.comparison.Holds () machine₁ machine₁' →
      setting.comparison.Holds () { machine₁ with current := machine.current }
        { machine₁' with current := machine'.current } :=
    fun holds₁ => { holds₁ with current }
  unfold Action.within
  simp only
  generalize left { machine with current := frame } = outcome at ends ⊢
  generalize right { machine' with current := frame } = outcome' at ends ⊢
  cases ends with
  | ok grows holds results => exact .ok grows (back holds) results
  | error grows holds stops => exact .error grows (back holds) stops

/-! ## References -/

theorem follows_distanceOf {reference : Occurrence}
    (known : reference.place < setting.limit) :
    setting.Follows (Action.distanceOf reference)
      (Action.distanceOf (setting.move reference))
      fun distance distance' => distance' = distance := by
  intro machine machine' holds
  apply ends_ok holds
  rw [Setting.Holds.distances holds, Setting.Holds.distances' holds]
  exact setting.agree _ known

theorem follows_frameAt (distance : Nat) :
    setting.Follows (Action.frameAt distance) (Action.frameAt distance)
      fun frame frame' => frame' = frame := by
  intro machine machine' holds
  unfold Action.frameAt
  rw [Frames.ancestor?_congr (Setting.Holds.enclosing holds), Setting.Holds.current holds]
  cases machine.frames.ancestor? machine.current distance with
  | none => exact ends_defect holds _
  | some frame => exact ends_ok holds rfl

theorem follows_valueIn (frame : FrameId) (name : String) :
    setting.Follows (Action.valueIn frame name) (Action.valueIn frame name)
      setting.Values := by
  intro machine machine' holds
  unfold Action.valueIn
  rcases rel_cases (Setting.Holds.here? holds frame name) with
      ⟨left, right⟩ | ⟨_, _, left, right, values⟩ <;> rw [left, right]
  · exact ends_defect holds _
  · exact ends_ok holds values

theorem follows_localValue (distance : Nat) (name : String) :
    setting.Follows (Action.localValue distance name) (Action.localValue distance name)
      setting.Values := by
  rw [Action.localValue]
  apply (follows_frameAt distance).bind
  rintro _ _ frame - rfl
  exact follows_valueIn frame name

theorem follows_globalValue (name : Occurrence) :
    setting.Follows (Action.globalValue name) (Action.globalValue (setting.move name))
      setting.Values := by
  intro machine machine' holds
  unfold Action.globalValue
  rw [Frames.get?, Frames.get?, Setting.Holds.home? holds, setting.same.lexeme]
  cases machine.frames.home? Machine.globals name.lexeme with
  | none => exact ends_error holds name _
  | some home =>
      rcases rel_cases (Setting.Holds.here? holds home name.lexeme) with
          ⟨left, right⟩ | ⟨_, _, left, right, values⟩ <;>
        simp only [Option.bind_some, left, right]
      · exact ends_error holds name _
      · exact ends_ok holds values

theorem follows_assignGlobal (name : Occurrence) {value value' : Value}
    (values : setting.Values value value') :
    setting.Follows (Action.assignGlobal name value)
      (Action.assignGlobal (setting.move name) value') fun _ _ => True := by
  intro machine machine' holds
  unfold Action.assignGlobal
  rw [Frames.assign?, Frames.assign?, Setting.Holds.home? holds, setting.same.lexeme]
  cases machine.frames.home? Machine.globals name.lexeme with
  | none => exact ends_error holds name _
  | some home =>
    exact ends_ok (Setting.Holds.define holds home name.lexeme values) trivial

theorem follows_read {reference : Occurrence} (known : reference.place < setting.limit) :
    setting.Follows (Action.read reference) (Action.read (setting.move reference))
      setting.Values := by
  rw [Action.read]
  apply (follows_distanceOf known).bind
  rintro _ _ distance - rfl
  cases distance with
  | none => exact follows_globalValue reference
  | some distance =>
      rw [setting.same.lexeme]
      exact follows_localValue distance reference.lexeme

theorem follows_assign {reference : Occurrence} (known : reference.place < setting.limit)
    {value value' : Value} (values : setting.Values value value') :
    setting.Follows (Action.assign reference value)
      (Action.assign (setting.move reference) value') fun _ _ => True := by
  rw [Action.assign]
  apply (follows_distanceOf known).bind
  rintro _ _ distance - rfl
  cases distance with
  | none => exact follows_assignGlobal reference values
  | some distance =>
      rw [setting.same.lexeme]
      apply (follows_frameAt distance).bind
      rintro _ _ frame - rfl
      exact follows_defineIn frame reference.lexeme values

end Steps

end LoxLang.Moved
