import LoxLang.Proofs.Origins.History

/-! # Chains are well founded

Names are looked up from frame to frame, and methods from class to class. Whatever is done
with a session, by programs or by hand, such a search comes to an end: every link leads to
something that was made before, and no link is ever changed.
-/

namespace LoxLang

open LoxLang.Action Stage

variable {sources : Sources} {machine : Machine}

/-! ## Frames -/

theorem Machine.Traced.exists_walk (traced : machine.Traced sources)
    {frame : FrameId} (exists_ : frame < machine.frames.size) (name : String) :
    ∃ steps result, steps ≤ frame ∧
      Walk machine.frames.enclosing? (machine.frames.Has · name) frame steps result ∧
      machine.frames.get? frame name = result.bind (machine.frames.here? · name) ∧
      ∀ value, machine.frames.assign? frame name value =
        result.map (machine.frames.define · name value) := by
  rcases (traced.ordered.leadsBack frame).exists_walk (machine.frames.Has · name) with
    ⟨steps, result, enough, walk⟩
  have home := Frames.home?_of_walk traced.ordered exists_ walk
  refine ⟨steps, result, enough, walk, ?_, fun value => ?_⟩
  · rw [Frames.get?, home]
  · rw [Frames.assign?, home]

theorem Stage.Reached.exists_root {clock : Clock} {deeds : List Deed} {hands : List Value}
    {task : Option Task} (reached : Reached sources (start clock) deeds machine hands task)
    {frame : FrameId} (exists_ : frame < machine.frames.size) :
    ∃ length root, length ≤ frame ∧ EndsAt machine.frames.enclosing? frame length root ∧
      (root = Machine.globals ∨ Sometime (MakesOutermost · · root) (start clock) deeds) := by
  have ordered := reached.traced.ordered
  rcases (ordered.leadsBack frame).exists_endsAt with ⟨length, root, enough, ends⟩
  refine ⟨length, root, enough, ends, ?_⟩
  -- A new session has one frame only, so any other frame without a frame around it has
  -- been made by a deed.
  rcases Nat.eq_zero_or_pos root with first | later
  · exact .inl first
  · have inside := Nat.lt_of_le_of_lt (ordered.le_of_encloses ends.linked) exists_
    exact .inr (reached.outermost root later inside ends.final)

/-! ## Classes -/

theorem Class.Traced.exists_walk {description : Class}
    (traced : description.Traced sources machine) (name : String) :
    ∃ steps result, steps ≤ description.identity ∧
      Walk Class.superclass (Class.Has · name) description steps result ∧
      description.findMethod? name = result.bind (·.methods.get? name) := by
  rcases traced.leadsBack.exists_walk (Class.Has · name) with ⟨steps, result, enough, walk⟩
  exact ⟨steps, result, enough, walk, Class.findMethod?_of_walk walk⟩

/-! ## Histories -/

/-- Chains are well founded. At every moment of every history, between two deeds or where
something begins or ends that is executed in the course of a step:

* A frame is enclosed by an earlier one. So the chain of frames from any frame has an end,
  and there are frames as many steps outward as there are links to the end. The end is the
  global frame, unless it is a frame that one of the deeds made without another around it.
* A walk outward that looks for a name ends, and what it comes to is where the name is read
  and assigned.
* The superclass of a class was made before the class. So a walk upward that looks for a
  method ends, and what it comes to is where the method is found.

No link is changed after it is made: between any two moments of a history, frames are
enclosed in the same way, and one number of a class stands for one class. -/
theorem chains_are_well_founded (clock : Clock) {deeds : List Deed}
    (possible : (start clock).PossibleAll deeds) {machine : Machine} {hands : List Value}
    (moment : (start clock).Moment deeds machine hands) :
    (∀ frame outer, machine.frames.enclosing? frame = some outer → outer < frame) ∧
      (∀ frame < machine.frames.size, ∃ length root, length ≤ frame ∧
        EndsAt machine.frames.enclosing? frame length root ∧
        (root = Machine.globals ∨ Sometime (MakesOutermost · · root) (start clock) deeds) ∧
        ∀ distance, (machine.frames.ancestor? frame distance).isSome ↔ distance ≤ length) ∧
      (∀ frame < machine.frames.size, ∀ name, ∃ steps result, steps ≤ frame ∧
        Walk machine.frames.enclosing? (machine.frames.Has · name) frame steps result ∧
        machine.frames.get? frame name = result.bind (machine.frames.here? · name) ∧
        ∀ value, machine.frames.assign? frame name value =
          result.map (machine.frames.define · name value)) ∧
      (∀ description, InReach machine hands (.classValue description) →
        description.identity < machine.identities ∧
        (∀ parent, description.superclass = some parent →
          parent.identity < description.identity) ∧
        ∀ name, ∃ steps result, steps ≤ description.identity ∧
          Walk Class.superclass (Class.Has · name) description steps result ∧
          description.findMethod? name = result.bind (·.methods.get? name)) ∧
      ∀ other others, (start clock).Moment deeds other others →
        (∀ frame, frame < machine.frames.size → frame < other.frames.size →
          machine.frames.enclosing? frame = other.frames.enclosing? frame) ∧
        ∀ description description', InReach machine hands (.classValue description) →
          InReach other others (.classValue description') →
          description.identity = description'.identity → description = description' := by
  have course := course clock possible
  rcases moment.reached course with ⟨task, reached⟩
  have tracedClass : ∀ {description}, InReach machine hands (.classValue description) →
      description.Traced _ machine :=
    fun inReach => inReach.traced reached.traced reached.hands
  refine ⟨reached.traced.ordered, ?_, ?_, ?_, ?_⟩
  · intro frame exists_
    rcases reached.exists_root exists_ with ⟨length, root, enough, ends, known⟩
    exact ⟨length, root, enough, ends, known, fun _ => Frames.isSome_ancestor?_iff ends⟩
  · exact fun frame exists_ name => reached.traced.exists_walk exists_ name
  · intro description inReach
    have traced := tracedClass inReach
    exact ⟨traced.founded.numbered, traced.founded.earlier, traced.exists_walk⟩
  · intro other others moment'
    rcases moment'.reached course with ⟨task', reached'⟩
    refine ⟨fun frame exists_ exists' => reached.behind.agree reached'.behind exists_ exists',
      fun description description' inReach inReach' numbers => ?_⟩
    have traced' : description'.Traced _ other :=
      inReach'.traced reached'.traced reached'.hands
    exact course.unique (tracedClass inReach).made traced'.made numbers

/-- A class that is declared again above its old value, and a frame that is made by hand. -/
theorem chains_are_well_founded_redeclared :
    let deeds : List Deed :=
      [.step (.runUnchecked ⟨1, 1⟩ "class A \x7b\x7d class A < A \x7b\x7d"),
        .operation (.newFrame none)]
    ∃ machine hands description parent,
      (start 0).PossibleAll deeds ∧ (start 0).Moment deeds machine hands ∧
        machine.frames.here? Machine.globals "A" = some (.classValue description) ∧
        description.superclass = some parent ∧ parent.name = description.name ∧
        parent.identity < description.identity := by
  intro deeds
  have possible : (start 0).PossibleAll deeds := ⟨trivial, nofun, trivial⟩
  let first : Class := ⟨1, "A", none, ⟨[]⟩⟩
  let second : Class := ⟨2, "A", some first, ⟨[]⟩⟩
  have moment : (start 0).Moment deeds _ _ :=
    ⟨deeds, none, List.prefix_refl _, .later (.later .now)⟩
  have found : ((start 0).afterAll deeds).machine.frames.here? Machine.globals "A" =
      some (.classValue second) := by cbv
  rcases chains_are_well_founded 0 possible moment with ⟨-, -, -, classes, -⟩
  have older := (classes second (.atHand (.named found))).2.1 first rfl
  exact ⟨_, _, second, first, possible, moment, found, rfl, rfl, older⟩

end LoxLang
