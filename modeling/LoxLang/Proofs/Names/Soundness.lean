import LoxLang.Machine.Calls
import LoxLang.Proofs.Names.Growth
import LoxLang.Proofs.Objects.Methods

/-! # Machines with settled closures

The routines on a machine are settled in the scopes around their frames. An action is
described by what it may do to the names of existing frames: it keeps the machine sound,
comes back to the frame it began in, and lets frames gain the names they may and no
others, whether it delivers or stops.
-/

namespace LoxLang

/-! ## Sound values -/

section Values

variable (settlement : Settlement) (frames : Frames)

/-- The routine is settled in complete scopes that its frame covers. -/
def Closure.Sound (closure : Closure) : Prop :=
  ∃ scopes : Scopes, scopes.Covers frames closure.frame ∧ scopes.Complete ∧
    closure.routine.Settled settlement scopes

def Closure.SoundMethod (closure : Closure) : Prop :=
  ∃ scopes : Scopes, scopes.Covers frames closure.frame ∧ scopes.Complete ∧
    closure.routine.Settled settlement (scopes.nest ["this"])

def Class.Sound (description : Class) : Prop :=
  ∀ name method, description.findMethod? name = some method →
    method.SoundMethod settlement frames

def Value.Sound : Value → Prop
  | .function _ closure => closure.Sound settlement frames
  | .classValue description => description.Sound settlement frames
  | .object _ description => description.Sound settlement frames
  | .nil | .bool _ | .number _ | .string _ | .native _ => True

def Completion.Sound : Completion → Prop
  | .finished => True
  | .returned value => value.Sound settlement frames

end Values

/-! ## Plain values -/

/-- The value cannot be called and has no properties. -/
def Value.IsPlain : Value → Prop
  | .nil | .bool _ | .number _ | .string _ => True
  | .function _ _ | .native _ | .classValue _ | .object _ _ => False

theorem Value.isPlain_literal (literal : Literal) : Value.IsPlain literal.value := by
  cases literal <;> trivial

private theorem Value.isPlain_combine {operation : Float → Float → Value}
    (results : ∀ first second, (operation first second).IsPlain)
    {left right value : Value} (combined : left.combine operation right = .ok value) :
    value.IsPlain := by
  unfold Value.combine at combined
  split at combined
  · cases combined
    exact results _ _
  · cases combined

theorem BinaryOperator.isPlain_apply {operator : BinaryOperator} {left right value : Value}
    (applied : operator.apply left right = .ok value) : value.IsPlain := by
  have comparison : ∀ result : Float → Float → Bool, ∀ first second,
      Value.IsPlain (.bool (result first second)) := fun _ _ _ => trivial
  have arithmetic : ∀ result : Float → Float → Float, ∀ first second,
      Value.IsPlain (.number (result first second)) := fun _ _ _ => trivial
  cases operator with
  | equal | notEqual =>
      cases applied
      trivial
  | greater | greaterEqual | less | lessEqual =>
      exact Value.isPlain_combine (comparison _) applied
  | subtract | multiply | divide => exact Value.isPlain_combine (arithmetic _) applied
  | add =>
      change left.add right = .ok value at applied
      unfold Value.add at applied
      split at applied <;> cases applied <;> trivial

theorem UnaryOperator.isPlain_apply {operator : UnaryOperator} {right value : Value}
    (applied : operator.apply right = .ok value) : value.IsPlain := by
  unfold UnaryOperator.apply at applied
  split at applied <;> cases applied <;> trivial

/-! ## Routines and classes -/

theorem Routine.Settled.body {settlement : Settlement} {scopes : Scopes}
    {routine : Routine} (settled : routine.Settled settlement scopes) :
    Stmt.SettledAll settlement (scopes.nest (routine.parameters.map (·.lexeme)))
      routine.body := by
  cases routine with
  | mk name parameters body => exact settled.2

theorem Class.arity_eq {description : Class} {method bound : Closure}
    (found : description.initializer? = some method)
    (same : bound.routine = method.routine) : description.arity = bound.arity := by
  simp only [Class.arity, found, Closure.arity, same]

section Growth

variable {settlement newer : Settlement} {frames later : Frames} {gains : Gains}

theorem Class.Sound.mono {description : Class} (sound : description.Sound settlement frames)
    (extends_ : settlement.Extends newer) (grows : frames.Grows gains later) :
    description.Sound newer later := by
  intro name method found
  rcases sound name method found with ⟨scopes, covers, complete, settled⟩
  exact ⟨scopes, covers.mono grows, complete, Routine.settled_mono extends_ _ _ settled⟩

theorem Value.Sound.mono {value : Value} (sound : value.Sound settlement frames)
    (extends_ : settlement.Extends newer) (grows : frames.Grows gains later) :
    value.Sound newer later := by
  cases value with
  | function identity closure =>
      rcases sound with ⟨scopes, covers, complete, settled⟩
      exact ⟨scopes, covers.mono grows, complete,
        Routine.settled_mono extends_ _ _ settled⟩
  | classValue description => exact Class.Sound.mono sound extends_ grows
  | object identity description => exact Class.Sound.mono sound extends_ grows
  | nil | bool | number | string | native => trivial

theorem Value.Sound.grow {value : Value} (sound : value.Sound settlement frames)
    (grows : frames.Grows gains later) : value.Sound settlement later :=
  sound.mono (.refl settlement) grows

theorem Completion.Sound.value {completion : Completion}
    (sound : completion.Sound settlement frames) :
    completion.value.Sound settlement frames := by
  cases completion with
  | finished => trivial
  | returned value => exact sound

theorem Value.IsPlain.sound {value : Value} (isPlain : value.IsPlain) :
    value.Sound settlement frames := by
  cases value with
  | nil | bool | number | string => trivial
  | function | native | classValue | object => exact isPlain.elim

theorem Value.sound_literal (literal : Literal) :
    Value.Sound settlement frames literal.value :=
  (isPlain_literal literal).sound

theorem Class.sound_mk {identity : Nat} {name : String} {superclass : Option Class}
    {methods : Bindings Closure}
    (own : ∀ name method, methods.get? name = some method →
      method.SoundMethod settlement frames)
    (inherited : ∀ parent ∈ superclass, parent.Sound settlement frames) :
    Class.Sound settlement frames ⟨identity, name, superclass, methods⟩ := by
  intro asked method found
  exact forall_mk own inherited found

theorem Routine.settled_of_mem {scopes : Scopes} {routines : List Routine}
    {routine : Routine} (settled : Routine.SettledAll settlement scopes routines)
    (member : routine ∈ routines) : routine.Settled settlement scopes := by
  induction routines with
  | nil => cases member
  | cons first rest induction =>
      cases member with
      | head => exact settled.1
      | tail _ member => exact induction settled.2 member

theorem Class.sound_methodTable {scopes : Scopes} {frame : FrameId}
    (covers : scopes.Covers frames frame) (complete : scopes.Complete)
    {methods : List Routine}
    (settled : Routine.SettledAll settlement (scopes.nest ["this"]) methods) :
    ∀ name method, (Class.methodTable frame methods).get? name = some method →
      method.SoundMethod settlement frames := by
  intro name method found
  apply forall_methodTable _ found
  intro routine member
  exact ⟨scopes, covers, complete, Routine.settled_of_mem settled member⟩

theorem BinaryOperator.sound_apply {operator : BinaryOperator} {left right value : Value}
    (applied : operator.apply left right = .ok value) : value.Sound settlement frames :=
  (isPlain_apply applied).sound

theorem UnaryOperator.sound_apply {operator : UnaryOperator} {right value : Value}
    (applied : operator.apply right = .ok value) : value.Sound settlement frames :=
  (isPlain_apply applied).sound

end Growth

/-! ## Sound machines -/

structure Machine.Sound (settlement : Settlement) (machine : Machine) : Prop where
  distances : machine.distances = settlement.distances
  positive : 0 < machine.frames.size
  values : ∀ frame name value, machine.frames.here? frame name = some value →
    value.Sound settlement machine.frames
  objects : ∀ (object : Nat) fields name value, machine.objects[object]? = some fields →
    fields.get? name = some value → value.Sound settlement machine.frames

@[simp] theorem Machine.here?_bare (clock : Clock) (frame : FrameId) (name : String) :
    (Machine.bare clock).frames.here? frame name = none := by
  rw [bare, Frames.here?, Frames.namesOf_push]
  split <;> rfl

namespace Machine.Sound

variable {settlement : Settlement} {machine : Machine}

theorem inFrame (sound : machine.Sound settlement) (frame : FrameId) :
    Machine.Sound settlement { machine with current := frame } :=
  ⟨sound.distances, sound.positive, sound.values, sound.objects⟩

theorem settle {newer : Settlement} (sound : machine.Sound settlement)
    (extends_ : settlement.Extends newer) :
    Machine.Sound newer { machine with distances := newer.distances } where
  distances := rfl
  positive := sound.positive
  values frame name value found :=
    (sound.values frame name value found).mono extends_ (.refl _ : Frames.Grows .none _ _)
  objects object fields name value isObject found :=
    (sound.objects object fields name value isObject found).mono extends_
      (.refl _ : Frames.Grows .none _ _)

theorem push (sound : machine.Sound settlement) (enclosing : Option FrameId) :
    Machine.Sound settlement
      { machine with frames := machine.frames.push enclosing } := by
  have grows : machine.frames.Grows Gains.none (machine.frames.push enclosing) :=
    .push enclosing
  refine ⟨sound.distances, Nat.lt_of_lt_of_le sound.positive grows.size, ?_, ?_⟩
  · intro frame name value found
    by_cases new : frame = machine.frames.size
    · subst new
      rw [Frames.here?_push_size] at found
      cases found
    · rw [Frames.here?, Frames.namesOf_push, if_neg new] at found
      exact (sound.values frame name value found).grow grows
  · exact fun object fields name value isObject found =>
      (sound.objects object fields name value isObject found).grow grows

theorem define (sound : machine.Sound settlement) (frame : FrameId) (name : String)
    {value : Value}
    (soundValue : value.Sound settlement (machine.frames.define frame name value)) :
    Machine.Sound settlement
      { machine with frames := machine.frames.define frame name value } := by
  have grows : machine.frames.Grows (fun _ _ => True)
      (machine.frames.define frame name value) := .define value (.inr trivial)
  refine ⟨sound.distances, Nat.lt_of_lt_of_le sound.positive grows.size, ?_, ?_⟩
  · intro other asked found isFound
    rcases Nat.lt_or_ge frame machine.frames.size with exists_ | missing
    · rw [Frames.here?_define _ exists_] at isFound
      split at isFound
      · cases isFound
        exact soundValue
      · exact (sound.values other asked found isFound).grow grows
    · rw [Frames.define_of_size_le _ missing] at isFound
      exact (sound.values other asked found isFound).grow grows
  · exact fun object fields asked found isObject isFound =>
      (sound.objects object fields asked found isObject isFound).grow grows

end Machine.Sound

/-! ## What actions do to names -/

namespace Names

section Keeps

variable (settlement : Settlement) (gains : Gains) (frames : Frames) (current : FrameId)

structure At (machine : Machine) : Prop where
  sound : machine.Sound settlement
  frames : machine.frames = frames
  current : machine.current = current

inductive Ends {α : Type} (post : Frames → α → Prop) :
    EStateM.Result Stop Machine α → Prop
  | ok {result : α} {machine : Machine} (grows : frames.Grows gains machine.frames)
      (there : At settlement machine.frames current machine)
      (results : post machine.frames result) : Ends post (.ok result machine)
  | error {stop : Stop} {machine : Machine} (grows : frames.Grows gains machine.frames)
      (there : At settlement machine.frames current machine) : Ends post (.error stop machine)

/-- From a sound machine the action lets frames gain nothing but what they may. -/
def Keeps {α : Type} (action : Action α) (post : Frames → α → Prop) : Prop :=
  ∀ machine, At settlement frames current machine →
    Ends settlement gains frames current post (action machine)

end Keeps

variable {settlement : Settlement} {gains wider : Gains} {frames later : Frames}
  {current : FrameId} {machine : Machine} {α β : Type} {post : Frames → α → Prop}

theorem At.ok (here : At settlement frames current machine) {result : α}
    (results : post frames result) :
    Ends settlement gains frames current post (.ok result machine) := by
  obtain rfl := here.frames
  exact .ok (.refl _) here results

theorem At.error (here : At settlement frames current machine) (stop : Stop) :
    Ends settlement gains frames current post (.error stop machine) := by
  obtain rfl := here.frames
  exact .error (.refl _) here

theorem Ends.allow {outcome : EStateM.Result Stop Machine α}
    (ends : Ends settlement gains frames current post outcome)
    (implies : ∀ frame < frames.size, ∀ name, gains frame name → wider frame name) :
    Ends settlement wider frames current post outcome := by
  cases ends with
  | ok grows there results => exact .ok (grows.weaken implies) there results
  | error grows there => exact .error (grows.weaken implies) there

theorem Ends.imp {stronger : Frames → α → Prop} {outcome : EStateM.Result Stop Machine α}
    (ends : Ends settlement gains frames current stronger outcome)
    (implies : ∀ later result, frames.Grows gains later → stronger later result →
      post later result) :
    Ends settlement gains frames current post outcome := by
  cases ends with
  | ok grows there results => exact .ok grows there (implies _ _ grows results)
  | error grows there => exact .error grows there

theorem Ends.from {outcome : EStateM.Result Stop Machine α}
    (ends : Ends settlement gains later current post outcome)
    (before : frames.Grows gains later) :
    Ends settlement gains frames current post outcome := by
  cases ends with
  | ok grows there results => exact .ok (before.trans grows) there results
  | error grows there => exact .error (before.trans grows) there

namespace Keeps

theorem pure {result : α} (results : post frames result) :
    Keeps settlement gains frames current (pure result) post :=
  fun _ here => here.ok results

theorem throw (stop : Stop) :
    Keeps settlement gains frames current (throw stop : Action α) post :=
  fun _ here => here.error stop

theorem bind {action : Action β} {next : β → Action α} {middle : Frames → β → Prop}
    (first : Keeps settlement gains frames current action middle)
    (second : ∀ later result, frames.Grows gains later → middle later result →
      Keeps settlement gains later current (next result) post) :
    Keeps settlement gains frames current (action >>= next) post := by
  intro machine here
  change Ends settlement gains frames current post (EStateM.bind action next machine)
  have ends := first machine here
  simp only [EStateM.bind]
  generalize action machine = outcome at ends ⊢
  cases ends with
  | ok grows there results => exact (second _ _ grows results _ there).from grows
  | error grows there => exact .error grows there

theorem allow {action : Action α}
    (keeps : Keeps settlement gains frames current action post)
    (implies : ∀ frame < frames.size, ∀ name, gains frame name → wider frame name) :
    Keeps settlement wider frames current action post :=
  fun machine here => (keeps machine here).allow implies

theorem imp {action : Action α} {stronger : Frames → α → Prop}
    (keeps : Keeps settlement gains frames current action stronger)
    (implies : ∀ later result, frames.Grows gains later → stronger later result →
      post later result) :
    Keeps settlement gains frames current action post :=
  fun machine here => (keeps machine here).imp implies

theorem ofNone {action : Action α}
    (keeps : Keeps settlement .none frames current action post) :
    Keeps settlement gains frames current action post :=
  keeps.allow fun _ _ _ => False.elim

theorem ofNew {action : Action α}
    (keeps : Keeps settlement (gains.orFrom frames.size) frames current action post) :
    Keeps settlement gains frames current action post := by
  refine keeps.allow fun frame exists_ name gained => ?_
  rcases gained with new | gained
  · exact absurd exists_ (Nat.not_lt.mpr new)
  · exact gained

theorem ofPositive {action : Action α}
    (keeps : 0 < frames.size → Keeps settlement gains frames current action post) :
    Keeps settlement gains frames current action post :=
  fun machine here => keeps (here.frames ▸ here.sound.positive) machine here

theorem ok {action : Action α} (keeps : Keeps settlement gains frames current action post)
    (here : At settlement frames current machine) {result : α} {reached : Machine}
    (done : action machine = .ok result reached) :
    frames.Grows gains reached.frames ∧
      At settlement reached.frames current reached ∧ post reached.frames result := by
  have ends := keeps machine here
  rw [done] at ends
  cases ends with
  | ok grows there results => exact ⟨grows, there, results⟩

end Keeps

end Names

theorem Machine.Sound.ok {settlement : Settlement} {machine reached : Machine}
    {action : Action α} {post : Frames → α → Prop} {result : α}
    (sound : machine.Sound settlement)
    (keeps : Names.Keeps settlement .none machine.frames machine.current action post)
    (done : action machine = .ok result reached) :
    reached.Sound settlement ∧ machine.frames.Grows .none reached.frames ∧
      post reached.frames result := by
  rcases keeps.ok ⟨sound, rfl, rfl⟩ done with ⟨grows, there, results⟩
  exact ⟨there.sound, grows, results⟩

end LoxLang
