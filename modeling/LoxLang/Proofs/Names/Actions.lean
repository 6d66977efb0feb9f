import LoxLang.Proofs.Names.Soundness

/-! # What single actions do to names

Names are gained by declarations only. An assignment gives another value to a name that
some frame has; the one exception is a variable in its own initializer, which may be
assigned before the frame has it.
-/

namespace LoxLang.Names

open LoxLang.Action

variable {settlement : Settlement} {gains : Gains} {frames : Frames} {current : FrameId}

/-! ## Frames -/

section Frames

theorem keeps_currentFrame : Keeps settlement gains frames current currentFrame
    fun later frame => frames = later ∧ current = frame :=
  fun _ here => here.ok ⟨rfl, here.current.symm⟩

theorem keeps_newFrame (enclosing : FrameId) :
    Keeps settlement gains frames current (newFrame enclosing) fun later frame =>
      later = frames.push (some enclosing) ∧ frame = frames.size := by
  intro machine here
  obtain rfl := here.frames
  exact .ok (.push _) ⟨here.sound.push _, rfl, here.current⟩ ⟨rfl, rfl⟩

theorem keeps_defineIn_of_later {frame : FrameId} {name : String} {value : Value}
    (allowed : frames.Has frame name ∨ gains frame name)
    (sound : value.Sound settlement (frames.define frame name value)) :
    Keeps settlement gains frames current (defineIn frame name value) fun later _ =>
      later = frames.define frame name value := by
  intro machine here
  obtain rfl := here.frames
  exact .ok (.define value allowed) ⟨here.sound.define frame name sound, rfl, here.current⟩
    rfl

theorem keeps_defineIn {frame : FrameId} {name : String} {value : Value}
    (allowed : frames.Has frame name ∨ gains frame name)
    (sound : value.Sound settlement frames) :
    Keeps settlement gains frames current (defineIn frame name value) fun later _ =>
      later = frames.define frame name value :=
  keeps_defineIn_of_later allowed (sound.grow (.define value allowed))

theorem keeps_frameWith {scopes : Scopes} {enclosing : FrameId}
    (covers : scopes.Covers frames enclosing) (name : String) {value : Value}
    (sound : value.Sound settlement frames) (deliver : FrameId → α) :
    Keeps settlement gains frames current
      (do
        let frame ← newFrame enclosing
        defineIn frame name value
        pure (deliver frame))
      fun later result => ∃ frame, (scopes.nest [name]).Covers later frame ∧
        result = deliver frame := by
  apply Keeps.ofNew
  apply (keeps_newFrame enclosing).bind
  rintro _ frame grows ⟨rfl, rfl⟩
  have allowed : gains.orFrom frames.size frames.size name := .inl (Nat.le_refl _)
  apply (keeps_defineIn (.inr allowed) (sound.grow grows)).bind
  rintro _ - - rfl
  exact .pure ⟨frames.size, covers.frameWith name value, rfl⟩

theorem keeps_defineAll {frame : FrameId} (allowed : ∀ name, gains frame name) :
    ∀ {names : List Occurrence} {values : List Value} {frames : Frames},
      frame < frames.size → names.length = values.length →
        (∀ value ∈ values, value.Sound settlement frames) →
          Keeps settlement gains frames current (defineAll frame names values)
            fun later _ => ∀ name ∈ names, later.Has frame name.lexeme
  | [], [], _, _, _, _ => by
      rw [defineAll]
      · exact .pure nofun
      · exact fun _ _ _ _ => nofun
  | name :: names, value :: values, frames, exists_, lengths, sound => by
      rw [List.forall_mem_cons] at sound
      rw [defineAll]
      apply (keeps_defineIn (.inr (allowed _)) sound.1).bind
      rintro _ - grows rfl
      have has : (frames.define frame name.lexeme value).Has frame name.lexeme :=
        (Frames.has_define exists_ _).mpr (.inl ⟨rfl, rfl⟩)
      have still : frame < (frames.define frame name.lexeme value).size :=
        Nat.lt_of_lt_of_le exists_ grows.size
      have soundOthers : ∀ other ∈ values,
          other.Sound settlement (frames.define frame name.lexeme value) :=
        fun other member => (sound.2 other member).grow grows
      apply (keeps_defineAll allowed still (Nat.succ.inj lengths) soundOthers).imp
      exact fun later _ grows' others =>
        List.forall_mem_cons.mpr ⟨grows'.kept _ _ has, others⟩

theorem keeps_within {frame : FrameId} {action : Action α} {post : Frames → α → Prop}
    (keeps : Keeps settlement gains frames frame action post) :
    Keeps settlement gains frames current (within frame action) post := by
  intro machine here
  have inside : At settlement frames frame { machine with current := frame } :=
    ⟨here.sound.inFrame frame, here.frames, rfl⟩
  have back : ∀ reached : Machine, At settlement reached.frames frame reached →
      At settlement reached.frames current { reached with current := machine.current } :=
    fun _ there => ⟨there.sound.inFrame _, rfl, here.current⟩
  have ends := keeps _ inside
  simp only [within]
  generalize action { machine with current := frame } = outcome at ends ⊢
  cases ends with
  | @ok _ reached grows there results => exact .ok grows (back reached there) results
  | @error _ reached grows there => exact .error grows (back reached there)

theorem keeps_withinNew {first : FrameId} {action : Action α} {post : Frames → α → Prop}
    (keeps : Keeps settlement (.inFrame first) frames first action post) :
    Keeps settlement (gains.orFrom first) frames current (within first action) post :=
  keeps_within (keeps.allow fun _ _ _ same => .inl (Nat.le_of_eq same.symm))

end Frames

/-! ## References -/

section References

theorem keeps_distanceOf (reference : Occurrence) :
    Keeps settlement gains frames current (distanceOf reference) fun later distance =>
      later = frames ∧ distance = settlement.distances.get? reference.place :=
  fun _ here => here.ok ⟨rfl, by rw [here.sound.distances]⟩

theorem keeps_frameAt (distance : Nat) :
    Keeps settlement gains frames current (frameAt distance) fun later frame =>
      later = frames ∧ frames.ancestor? current distance = some frame := by
  intro machine here
  rw [frameAt, here.frames, here.current]
  cases frames.ancestor? current distance with
  | none => exact here.error _
  | some frame => exact here.ok ⟨rfl, rfl⟩

theorem keeps_valueIn (frame : FrameId) (name : String) :
    Keeps settlement gains frames current (valueIn frame name)
      fun later value => value.Sound settlement later := by
  intro machine here
  rw [valueIn]
  cases found : machine.frames.here? frame name with
  | none => exact here.error _
  | some value => exact here.ok (here.frames ▸ here.sound.values _ _ _ found)

theorem keeps_localValue (distance : Nat) (name : String) :
    Keeps settlement gains frames current (localValue distance name)
      fun later value => value.Sound settlement later := by
  apply (keeps_frameAt distance).bind
  rintro _ frame - ⟨rfl, -⟩
  exact keeps_valueIn frame name

theorem keeps_globalValue (name : Occurrence) :
    Keeps settlement gains frames current (globalValue name)
      fun later value => value.Sound settlement later := by
  intro machine here
  rw [globalValue]
  cases found : machine.frames.get? Machine.globals name.lexeme with
  | none => exact here.error _
  | some value =>
      rcases Option.bind_eq_some_iff.mp found with ⟨home, -, inHome⟩
      exact here.ok (here.frames ▸ here.sound.values _ _ _ inHome)

theorem keeps_read (reference : Occurrence) :
    Keeps settlement gains frames current (read reference)
      fun later value => value.Sound settlement later := by
  apply (keeps_distanceOf reference).bind
  rintro _ distance - ⟨rfl, -⟩
  cases distance with
  | none => exact keeps_globalValue reference
  | some distance => exact keeps_localValue distance reference.lexeme

theorem keeps_assignGlobal (name : Occurrence) {value : Value}
    (sound : value.Sound settlement frames) :
    Keeps settlement gains frames current (assignGlobal name value) fun _ _ => True := by
  intro machine here
  obtain rfl := here.frames
  rw [assignGlobal]
  cases assigned : machine.frames.assign? Machine.globals name.lexeme value with
  | none => exact here.error _
  | some frames =>
      rcases Option.map_eq_some_iff.mp assigned with ⟨home, isHome, rfl⟩
      have has : machine.frames.Has home name.lexeme := by
        have found := List.find?_some isHome
        exact found
      have grows : machine.frames.Grows gains
          (machine.frames.define home name.lexeme value) := .define value (.inl has)
      exact .ok grows ⟨here.sound.define home name.lexeme (sound.grow grows), rfl,
        here.current⟩ trivial

def begun (scopes : Scopes) (frame : FrameId) : Gains := fun gaining name =>
  gaining = frame ∧ scopes.incompleteHere name

theorem keeps_assign {scopes : Scopes} (covers : scopes.Covers frames current)
    (usable : scopes.Usable) {reference : Occurrence}
    (binds : settlement.Binds scopes reference) {value : Value}
    (sound : value.Sound settlement frames) :
    Keeps settlement (begun scopes current) frames current (assign reference value)
      fun _ _ => True := by
  apply (keeps_distanceOf reference).bind
  rintro _ distance - ⟨rfl, known⟩
  rw [binds.2] at known
  cases distance with
  | none => exact keeps_assignGlobal reference sound
  | some distance =>
      apply (keeps_frameAt distance).bind
      rintro _ frame - ⟨rfl, reached⟩
      exact (keeps_defineIn (covers.has_or_begun usable known.symm reached) sound).imp
        fun _ _ _ _ => trivial

end References

/-! ## Objects, output and clock -/

section Objects

theorem keeps_newIdentity :
    Keeps settlement gains frames current newIdentity fun later _ => later = frames := by
  intro machine here
  obtain rfl := here.frames
  exact .ok (.refl _) ⟨⟨here.sound.distances, here.sound.positive, here.sound.values,
    here.sound.objects⟩, rfl, here.current⟩ rfl

theorem keeps_print (text : String) :
    Keeps settlement gains frames current (print text) fun _ _ => True := by
  intro machine here
  obtain rfl := here.frames
  exact .ok (.refl _) ⟨⟨here.sound.distances, here.sound.positive, here.sound.values,
    here.sound.objects⟩, rfl, here.current⟩ trivial

theorem keeps_readClock :
    Keeps settlement gains frames current readClock fun _ _ => True := by
  intro machine here
  obtain rfl := here.frames
  exact .ok (.refl _) ⟨⟨here.sound.distances, here.sound.positive, here.sound.values,
    here.sound.objects⟩, rfl, here.current⟩ trivial

theorem keeps_newObject {description : Class}
    (sound : description.Sound settlement frames) :
    Keeps settlement gains frames current (newObject description) fun later value =>
      later = frames ∧ value.Sound settlement frames := by
  intro machine here
  obtain rfl := here.frames
  refine .ok (.refl _) ⟨⟨here.sound.distances, here.sound.positive, here.sound.values,
    ?_⟩, rfl, here.current⟩ ⟨rfl, sound⟩
  intro object fields name value isObject found
  rw [Array.getElem?_push] at isObject
  split at isObject
  · cases isObject
    cases found
  · exact here.sound.objects object fields name value isObject found

theorem keeps_field? (object : Nat) (name : String) :
    Keeps settlement gains frames current (field? object name) fun later found =>
      later = frames ∧ ∀ value ∈ found, value.Sound settlement frames := by
  intro machine here
  refine here.ok ⟨rfl, fun value isFound => ?_⟩
  rcases Option.bind_eq_some_iff.mp isFound with ⟨fields, isObject, found⟩
  exact here.frames ▸ here.sound.objects object fields name value isObject found

theorem keeps_setField (object : Nat) (name : String) {value : Value}
    (sound : value.Sound settlement frames) :
    Keeps settlement gains frames current (setField object name value)
      fun later _ => later = frames := by
  intro machine here
  obtain rfl := here.frames
  refine .ok (.refl _) ⟨⟨here.sound.distances, here.sound.positive, here.sound.values,
    ?_⟩, rfl, here.current⟩ rfl
  intro other fields asked found isObject isFound
  rw [Array.getElem?_modify] at isObject
  split at isObject
  case isTrue same =>
      rcases Option.map_eq_some_iff.mp isObject with ⟨before, isBefore, rfl⟩
      rw [Bindings.get?_bind] at isFound
      split at isFound
      · cases isFound
        exact sound
      · exact here.sound.objects _ before asked found isBefore isFound
  case isFalse => exact here.sound.objects other fields asked found isObject isFound

end Objects

/-! ## Methods -/

section Methods

variable {description : Class} {this : Value}

theorem keeps_bindThis {method : Closure} (sound : method.SoundMethod settlement frames)
    (soundThis : this.Sound settlement frames) :
    Keeps settlement gains frames current (bindThis method this)
      fun later bound => bound.Sound settlement later ∧ bound.routine = method.routine := by
  rcases sound with ⟨scopes, covers, complete, settled⟩
  let deliver : FrameId → Closure := fun frame => { method with frame }
  apply (keeps_frameWith covers "this" soundThis deliver).imp
  rintro _ _ - ⟨frame, inside, rfl⟩
  exact ⟨⟨_, inside, complete.nest ["this"], settled⟩, rfl⟩

theorem keeps_boundMethod {method : Closure} (sound : method.SoundMethod settlement frames)
    (soundThis : this.Sound settlement frames) :
    Keeps settlement gains frames current (boundMethod method this)
      fun later value => value.Sound settlement later := by
  apply (keeps_bindThis sound soundThis).bind
  intro _ bound _ soundBound
  apply keeps_newIdentity.bind
  rintro _ identity - rfl
  exact .pure soundBound.1

theorem keeps_method (sound : description.Sound settlement frames) (name : Occurrence)
    (soundThis : this.Sound settlement frames) :
    Keeps settlement gains frames current (method description name this)
      fun later value => value.Sound settlement later := by
  rw [method]
  cases found : description.findMethod? name.lexeme with
  | none => exact .throw _
  | some method => exact keeps_boundMethod (sound _ method found) soundThis

theorem keeps_property {value : Value} (sound : value.Sound settlement frames)
    (name : Occurrence) :
    Keeps settlement gains frames current (property value name)
      fun later value => value.Sound settlement later := by
  cases value with
  | object identity description =>
      apply (keeps_field? identity name.lexeme).bind
      rintro _ found - ⟨rfl, soundFound⟩
      cases found with
      | none => exact keeps_method sound name sound
      | some value => exact .pure (soundFound value rfl)
  | nil | bool | number | string | function | native | classValue => exact .throw _

theorem keeps_superMethod (keyword name : Occurrence) :
    Keeps settlement gains frames current (superMethod keyword name)
      fun later value => value.Sound settlement later := by
  apply (keeps_distanceOf keyword).bind
  rintro _ distance - ⟨rfl, -⟩
  cases distance with
  | none => exact .throw _
  | some distance =>
      apply (keeps_localValue distance "super").bind
      intro _ superclass _ soundClass
      apply (keeps_localValue (distance - 1) "this").bind
      intro _ this grows soundThis
      cases superclass with
      | classValue description => exact keeps_method (soundClass.grow grows) name soundThis
      | nil | bool | number | string | function | native | object => exact .throw _

end Methods

/-! ## Operators and calls -/

section Operators

theorem keeps_ofOperator (token : Occurrence) {result : Except OperandFault Value}
    (sound : ∀ value, result = .ok value → value.Sound settlement frames) :
    Keeps settlement gains frames current (ofOperator token result)
      fun later value => value.Sound settlement later := by
  cases result with
  | ok value => exact .pure (sound value rfl)
  | error fault => exact .throw _

theorem keeps_checkCall (paren : Occurrence) (callee : Value) (arguments : List Value) :
    Keeps settlement gains frames current (checkCall paren callee arguments)
      fun later _ => later = frames ∧ callee.arity? = some arguments.length := by
  rw [checkCall]
  cases arity : callee.arity? with
  | none => exact .throw _
  | some count =>
      dsimp only
      split
      case isTrue same => exact .pure ⟨rfl, congrArg some same.symm⟩
      case isFalse => exact .throw _

theorem keeps_answer (answer : NativeAnswer) {arguments : List Value}
    (sound : ∀ argument ∈ arguments, argument.Sound settlement frames) :
    Keeps settlement gains frames current (Action.answer answer arguments)
      fun later value => value.Sound settlement later := by
  cases answer with
  | clock =>
      rw [Action.answer, map_eq_pure_bind]
      apply keeps_readClock.bind
      exact fun _ _ _ _ => .pure trivial
  | constant value => exact .pure (Value.sound_literal value)
  | argument index =>
      rw [Action.answer]
      cases found : arguments[index]? with
      | none => exact .throw _
      | some value => exact .pure (sound value (List.mem_of_getElem? found))
  | computed compute =>
      rw [Action.answer]
      cases compute (arguments.map Value.literal?) with
      | none => exact .throw _
      | some value => exact .pure (Value.sound_literal value)

theorem keeps_repeatWhile {condition : Action Bool} {body : Action Completion}
    {invariant : Frames → Prop}
    (tested : ∀ frames, invariant frames →
      Keeps settlement gains frames current condition fun later _ => invariant later)
    (done : ∀ frames, invariant frames →
      Keeps settlement gains frames current body fun later completion =>
        completion.Sound settlement later ∧ (completion = .finished → invariant later)) :
    ∀ (limit : Nat) {frames : Frames}, invariant frames →
      Keeps settlement gains frames current (repeatWhile condition body limit)
        fun later completion => completion.Sound settlement later ∧
          (completion = .finished → invariant later)
  | 0, _, _ => .throw _
  | limit + 1, frames, holds => by
      rw [repeatWhile]
      apply (tested frames holds).bind
      intro middle goesOn _ holds'
      cases goesOn with
      | false => exact .pure ⟨trivial, fun _ => holds'⟩
      | true =>
          apply (done middle holds').bind
          rintro later completion _ ⟨sound, finished⟩
          cases completion with
          | finished => exact keeps_repeatWhile tested done limit (finished rfl)
          | returned value => exact .pure ⟨sound, fun ended => by cases ended⟩

end Operators

/-! ## Declarations -/

section Declarations

def declaring (name : String) (frame : FrameId) : Gains := fun gaining gained =>
  gaining = frame ∧ gained = name

variable {scopes : Scopes} {name : String}

theorem grows_define (name : String) (value : Value) :
    frames.Grows (declaring name current) (frames.define current name value) :=
  .define value (.inr ⟨rfl, rfl⟩)

theorem keeps_define (covers : scopes.Covers frames current) {value : Value}
    (sound : (scopes.define name).Covers (frames.define current name value) current →
      value.Sound settlement (frames.define current name value)) :
    Keeps settlement (declaring name current) frames current (define name value)
      fun later _ => (scopes.define name).Covers later current := by
  refine .ofPositive fun positive => ?_
  have allowed : frames.Has current name ∨ declaring name current current name :=
    .inr ⟨rfl, rfl⟩
  have defined : (scopes.define name).Covers (frames.define current name value) current :=
    (covers.mono (grows_define name value)).define
      ((Frames.has_define (covers.lt_size positive) _).mpr (.inl ⟨rfl, rfl⟩))
  apply keeps_currentFrame.bind
  rintro _ _ - ⟨rfl, rfl⟩
  apply (keeps_defineIn_of_later allowed (sound defined)).imp
  rintro _ _ - rfl
  exact defined

theorem keeps_declareFunction (covers : scopes.Covers frames current)
    (complete : scopes.Complete) {routine : Routine}
    (settled : routine.Settled settlement (scopes.define routine.name.lexeme)) :
    Keeps settlement (declaring routine.name.lexeme current) frames current
      (declareFunction routine)
      fun later _ => (scopes.define routine.name.lexeme).Covers later current := by
  apply keeps_currentFrame.bind
  rintro _ _ - ⟨rfl, rfl⟩
  apply keeps_newIdentity.bind
  rintro _ identity - rfl
  exact keeps_define covers fun defined => ⟨_, defined, complete.define _, settled⟩

theorem keeps_superclass (clause : Option Occurrence) :
    Keeps settlement gains frames current (superclass clause) fun later found =>
      found.isSome = clause.isSome ∧
        ∀ description ∈ found, description.Sound settlement later := by
  cases clause with
  | none => exact .pure ⟨rfl, nofun⟩
  | some name =>
      apply (keeps_read name).bind
      intro _ value _ sound
      cases value with
      | classValue description =>
          refine .pure ⟨rfl, fun _ isFound => ?_⟩
          exact Option.some.inj isFound ▸ sound
      | nil | bool | number | string | function | native | object => exact .throw _

theorem keeps_methodFrame (covers : scopes.Covers frames current)
    (complete : scopes.Complete) {found : Option Class}
    (sound : ∀ description ∈ found, description.Sound settlement frames)
    {clause : Option Occurrence} (same : found.isSome = clause.isSome) :
    Keeps settlement gains frames current (methodFrame found) fun later frame =>
      ∃ outer : Scopes, outer.Covers later frame ∧ outer.Complete ∧
        scopes.insideClass clause = outer.nest ["this"] := by
  apply keeps_currentFrame.bind
  rintro _ _ - ⟨rfl, rfl⟩
  cases found with
  | none =>
      obtain rfl : clause = none := Option.isNone_iff_eq_none.mp (by simpa using same.symm)
      exact .pure ⟨scopes, covers, complete, rfl⟩
  | some description =>
      obtain ⟨name, rfl⟩ := Option.isSome_iff_exists.mp same.symm
      have soundValue : Value.Sound settlement _ (.classValue description) :=
        sound description rfl
      apply (keeps_frameWith covers "super" soundValue id).imp
      rintro _ _ - ⟨frame, inside, rfl⟩
      exact ⟨_, inside, complete.nest _, rfl⟩

theorem keeps_declareClass (covers : scopes.Covers frames current)
    (complete : scopes.Complete) {name : Occurrence} {clause : Option Occurrence}
    {methods : List Routine}
    (settled : Routine.SettledAll settlement
      ((scopes.define name.lexeme).insideClass clause) methods) :
    Keeps settlement (declaring name.lexeme current) frames current
      (declareClass name clause methods)
      fun later _ => (scopes.define name.lexeme).Covers later current := by
  apply (keeps_superclass clause).bind
  rintro _ superclass grows₀ ⟨same, inherited⟩
  have begins : Keeps settlement (declaring name.lexeme current) _ current
      (define name.lexeme .nil) _ := keeps_define (covers.mono grows₀) fun _ => trivial
  apply begins.bind
  intro defined _ grows coversDefined
  have inherited' : ∀ parent ∈ superclass, parent.Sound settlement defined :=
    fun parent member => Class.Sound.mono (inherited parent member) (.refl _) grows
  apply (keeps_methodFrame coversDefined (complete.define _) inherited' same).bind
  rintro _ frame grows' ⟨outer, coversOuter, completeOuter, inside⟩
  apply keeps_newIdentity.bind
  rintro later identity - rfl
  rw [← Scopes.define_define]
  apply keeps_define (coversDefined.mono grows')
  intro _
  rw [inside] at settled
  have own := Class.sound_methodTable coversOuter completeOuter settled
  have sound : Value.Sound settlement later (.classValue ⟨identity, name.lexeme,
      superclass, Class.methodTable frame methods⟩) :=
    Class.sound_mk own fun parent member =>
      Class.Sound.mono (inherited' parent member) (.refl _) grows'
  exact sound.grow (grows_define _ _)

end Declarations

end LoxLang.Names
