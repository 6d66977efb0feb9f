import LoxLang.Proofs.Methods.Bodies

/-! # Bound methods keep their objects

A method is taken from an object as a property, through `super`, or as the initializer of
a new object. Each time it gets a frame of its own, which holds the object. Inside of its
body, `this` is always the object, and the frame never holds anything else.
-/

namespace LoxLang

open Names

structure Closure.BoundAs (frames : Frames) (method bound : Closure) : Prop where
  same : bound = { method with frame := bound.frame }
  enclosed : frames.enclosing? bound.frame = some method.frame

/-- A method is taken from an object, among what happens. -/
inductive Obtains (happens : Nat → Execution → Prop) : Value → Closure → Closure → Prop
  | property {rounds depth number identity : Nat} {target : Expr} {name : Occurrence}
      {description : Class} {method bound : Closure} {machine between reached : Machine}
      (happened : happens rounds ⟨depth, .expression (.get target name), machine⟩)
      (found : target.evaluate (callWithin rounds depth) machine =
        .ok (.object number description) between)
      (noField : between.objects[number]?.bind (·.get? name.lexeme) = none)
      (taken : (Expr.get target name).evaluate (callWithin rounds depth) machine =
        .ok (.function identity bound) reached)
      (boundAs : method.BoundAs reached.frames bound) :
      Obtains happens (.object number description) method bound
  | super {rounds depth identity : Nat} {keyword name : Occurrence} {object : Value}
      {method bound method' bound' : Closure} {machine reached : Machine}
      (around : Obtains happens object method' bound')
      (inBody : InBody happens bound' rounds
        ⟨depth, .expression (.super keyword name), machine⟩)
      (taken : (Expr.super keyword name).evaluate (callWithin rounds depth) machine =
        .ok (.function identity bound) reached)
      (boundAs : method.BoundAs reached.frames bound) :
      Obtains happens object method bound
  | initializer {rounds depth : Nat} {paren : Occurrence} {description : Class}
      {arguments : List Value} {method bound : Closure} {machine reached : Machine}
      (happened : happens rounds
        ⟨depth + 1, .call paren (.classValue description) arguments, machine⟩)
      (executes : Executes rounds
        ⟨depth + 1, .call paren (.classValue description) arguments, machine⟩
        ⟨depth, .closure bound arguments, reached⟩)
      (boundAs : method.BoundAs reached.frames bound) :
      Obtains happens (.object machine.objects.size description) method bound

/-- What is known of a bound method from the state that a session leaves in the end. -/
structure Closure.Holds (settlement : Settlement) (final : Frames) (object : Value)
    (method bound : Closure) : Prop where
  names : final.namesOf bound.frame = ⟨[("this", object)]⟩
  enclosed : final.enclosing? bound.frame = some method.frame
  routine : bound.routine = method.routine
  settled : ∃ scopes : Scopes, bound.routine.Settled settlement (scopes.nest ["this"])

section Holds

variable {settlement known : Settlement} {final frames : Frames} {object : Value}
  {method bound : Closure} {machine reached : Machine}

theorem Closure.Holds.isReserved (holds : method.Holds settlement final object bound) :
    final.IsReserved bound.frame := by
  refine ⟨"this", by decide, ?_⟩
  rw [Frames.Has, holds.names]
  rfl

theorem Closure.BoundAs.enclosing_eq {other : Closure} {size : FrameId}
    (boundAs : method.BoundAs frames { other with frame := size })
    (enclosed : frames.enclosing? size = some other.frame) : method = other := by
  obtain ⟨same, enclosed'⟩ := boundAs
  have sameFrame : method.frame = other.frame :=
    Option.some.inj (enclosed'.symm.trans enclosed)
  cases method
  cases other
  simp_all

theorem Closure.SoundMethod.holds (sound : method.SoundMethod known frames)
    (extends_ : known.Extends settlement)
    (retains : (frames.pushWith method.frame "this" object).Retains final) :
    method.Holds settlement final object { method with frame := frames.size } where
  names := by
    have reserved : Frames.IsReserved (frames.pushWith method.frame "this" object) _ :=
      Frames.isReserved_pushWith method.frame (by decide) object
    rw [retains.reserved _ reserved, Frames.namesOf_pushWith, if_pos rfl]
  enclosed := by
    rw [retains.enclosing _ (by simp), Frames.enclosing?_pushWith_size]
  routine := rfl
  settled := by
    obtain ⟨scopes, _, _, settled⟩ := sound
    exact ⟨scopes, Routine.settled_mono extends_ _ _ settled⟩

theorem Action.method_ok {description : Class} {name : Occurrence} {identity : Nat}
    (taken : Action.method description name object machine =
      .ok (.function identity bound) reached) :
    ∃ found, description.findMethod? name.lexeme = some found ∧
      bound = { found with frame := machine.frames.size } ∧
      reached.frames = machine.frames.pushWith found.frame "this" object := by
  rw [Action.method] at taken
  cases found : description.findMethod? name.lexeme with
  | none =>
      rw [found] at taken
      cases taken
  | some method =>
      rw [found] at taken
      cases (Action.boundMethod_eq method object machine).symm.trans taken
      exact ⟨method, rfl, rfl, rfl⟩

theorem Class.Sound.holds {description : Class} {name : Occurrence} {identity : Nat}
    (sound : description.Sound known machine.frames) (extends_ : known.Extends settlement)
    (taken : Action.method description name object machine =
      .ok (.function identity bound) reached)
    (boundAs : method.BoundAs reached.frames bound) (retains : reached.frames.Retains final) :
    method.Holds settlement final object bound := by
  obtain ⟨found, isFound, rfl, frames⟩ := Action.method_ok taken
  rw [frames] at boundAs retains
  rw [boundAs.enclosing_eq (Frames.enclosing?_pushWith_size _ _ _)]
  exact (sound _ _ isFound).holds extends_ retains

end Holds

/-! ## What is found inside of a body -/

section Inside

variable {happens : Nat → Execution → Prop} {settlement known : Settlement} {final : Frames}
  {rounds depth : Nat} {object : Value} {method bound : Closure} {machine : Machine}
  {expression : Expr} {base : Scopes}

/-- Inside of a body the scopes reach outward as the frames do, up to the frame of the
bound method. -/
structure Reaching (settlement : Settlement) (base : Scopes) (home : FrameId)
    (expression : Expr) (machine : Machine) (scopes : Scopes) (steps : Nat) : Prop where
  settled : expression.Settled settlement scopes
  distances : ∀ name ∈ reservedNames,
    scopes.distance? name = (base.distance? name).map (· + steps)
  ancestors : ∀ more, machine.frames.ancestor? machine.current (more + steps) =
    machine.frames.ancestor? home more
  around : base.Around machine.frames home scopes machine.current
  exists_ : machine.current < machine.frames.size

theorem InBody.reaching
    (inBody : InBody happens bound rounds ⟨depth, .expression expression, machine⟩)
    (leadsTo : Session.LeadsTo happens settlement final)
    (settled : bound.routine.Settled settlement base) :
    ∃ scopes steps,
      Reaching settlement base bound.frame expression machine scopes steps := by
  obtain ⟨happened, inside⟩ := inBody.inside leadsTo settled
  obtain ⟨_, guarded, _⟩ := (leadsTo.moment happened).guarded
  have exists_ := guarded.isOpen.exists_
  cases inside with
  | @task _ _ _ scopes around inner settled =>
      have around' := around.back (leadsTo.moment happened).starts exists_
      obtain ⟨steps, distances, ancestors⟩ := around'.distance?
      exact ⟨scopes, steps, settled, distances, ancestors, around', exists_⟩

theorem Names.Stands.distance_eq {scopes : Scopes} {reference : Occurrence}
    (stands : Stands known scopes machine) (extends_ : known.Extends settlement)
    (binds : known.Binds scopes reference) :
    machine.distances.get? reference.place =
      settlement.distances.get? reference.place := by
  rw [stands.sound.distances, extends_.distances _ binds.1]

theorem Action.localValue_eq {distance : Nat} {name : String} {frame : FrameId}
    {value : Value} (reached : machine.frames.ancestor? machine.current distance = some frame)
    (found : machine.frames.here? frame name = some value) :
    Action.localValue distance name machine = .ok value machine := by
  simp only [localValue, frameAt, valueIn, Bind.bind, EStateM.bind, reached, found]

theorem Closure.Holds.namesOf (holds : method.Holds settlement final object bound)
    {frames : Frames} (retains : frames.Retains final) (exists_ : bound.frame < frames.size) :
    frames.namesOf bound.frame = ⟨[("this", object)]⟩ :=
  (retains.namesOf_of_later exists_ holds.isReserved).trans holds.names

theorem InBody.this_eq (holds : method.Holds settlement final object bound)
    (inBody : InBody happens bound rounds ⟨depth, .expression expression, machine⟩)
    (leadsTo : Session.LeadsTo happens settlement final)
    {scopes : Scopes} {steps : Nat}
    (reaching : Reaching settlement base bound.frame expression machine scopes steps) :
    machine.frames.ancestor? machine.current steps = some bound.frame ∧
      machine.frames.namesOf bound.frame = ⟨[("this", object)]⟩ := by
  obtain ⟨_, settledBody⟩ := holds.settled
  have happened := (inBody.inside leadsTo settledBody).1
  have starts := (leadsTo.moment happened).starts
  have exists_ := Nat.lt_of_le_of_lt reaching.around.home_le reaching.exists_
  have here := reaching.ancestors 0
  rw [Nat.zero_add] at here
  exact ⟨here, holds.namesOf starts exists_⟩

theorem InBody.home?_this (holds : method.Holds settlement final object bound)
    (inBody : InBody happens bound rounds ⟨depth, .expression expression, machine⟩)
    (leadsTo : Session.LeadsTo happens settlement final) :
    machine.frames.home? machine.current "this" = some bound.frame := by
  obtain ⟨_, settledBody⟩ := holds.settled
  obtain ⟨scopes, steps, reaching⟩ := inBody.reaching leadsTo settledBody
  obtain ⟨-, names⟩ := inBody.this_eq holds leadsTo reaching
  have has : machine.frames.Has bound.frame "this" := by
    rw [Frames.Has, names]
    rfl
  exact reaching.around.home? (by decide) has reaching.exists_

theorem InBody.evaluate_this (holds : method.Holds settlement final object bound)
    (leadsTo : Session.LeadsTo happens settlement final) {keyword : Occurrence}
    (inBody : InBody happens bound rounds
      ⟨depth, .expression (.this keyword), machine⟩) :
    (Expr.this keyword).evaluate (callWithin rounds depth) machine = .ok object machine := by
  obtain ⟨outer, settledBody⟩ := holds.settled
  obtain ⟨scopes, steps, reaching⟩ := inBody.reaching leadsTo settledBody
  obtain ⟨reached, names⟩ := inBody.this_eq holds leadsTo reaching
  have moment := leadsTo.moment (inBody.inside leadsTo settledBody).1
  obtain ⟨known, guarded, extends_⟩ := moment.guarded
  have distance : machine.distances.get? keyword.place = some steps := by
    cases guarded.ready with
    | expression stands _ reads =>
        rw [stands.distance_eq extends_ reads.binds, reaching.settled.binds.2,
          reaching.settled.lexeme, reaching.distances "this" (by decide),
          Scopes.distance?_nest, if_pos (.head _), Option.map_some, Nat.zero_add]
  have found : machine.frames.here? bound.frame "this" = some object := by
    rw [Frames.here?, names]
    rfl
  have value := Action.localValue_eq reached found
  rw [← reaching.settled.lexeme] at value
  simp only [Expr.evaluate, Action.read, Action.distanceOf, Bind.bind, EStateM.bind, distance,
    value]

theorem Scopes.state?_of_incompleteHere {scopes : Scopes} {name : String}
    (begun : scopes.incompleteHere name) : scopes.state? name = some false := by
  cases scopes with
  | nil => cases begun
  | cons scope outer =>
      have here : scope.get? name = some false := by
        simpa [incompleteHere] using begun
      rw [state?_cons, here, Option.some_or]

theorem InBody.super_at (holds : method.Holds settlement final object bound)
    (leadsTo : Session.LeadsTo happens settlement final) {keyword name : Occurrence}
    (inBody : InBody happens bound rounds
      ⟨depth, .expression (.super keyword name), machine⟩) :
    ∃ steps, machine.distances.get? keyword.place = some (steps + 1) ∧
      Action.localValue steps "this" machine = .ok object machine ∧
        machine.frames.ancestor? machine.current (steps + 1) = some method.frame ∧
          machine.frames.Has method.frame "super" := by
  obtain ⟨outer, settledBody⟩ := holds.settled
  obtain ⟨scopes, steps, reaching⟩ := inBody.reaching leadsTo settledBody
  obtain ⟨reached, names⟩ := inBody.this_eq holds leadsTo reaching
  have moment := leadsTo.moment (inBody.inside leadsTo settledBody).1
  have exists_ := Nat.lt_of_le_of_lt reaching.around.home_le reaching.exists_
  have found : machine.frames.here? bound.frame "this" = some object := by
    rw [Frames.here?, names]
    rfl
  have reachedOuter := reaching.ancestors 1
  rw [Frames.ancestor?_succ ((moment.starts.enclosing _ exists_).symm.trans holds.enclosed),
    Frames.ancestor?_zero, Nat.add_comm] at reachedOuter
  obtain ⟨known, guarded, extends_⟩ := moment.guarded
  have around : scopes.distance? "super" = some (steps + 1) := by
    obtain ⟨distance, around, here⟩ := reaching.settled.nested
    rw [reaching.distances "this" (by decide), Scopes.distance?_nest, if_pos (.head _),
      Option.map_some, Nat.zero_add] at here
    cases here
    exact around
  cases guarded.ready with
  | @expression _ _ scopes' _ stands usable reads =>
      have distance : machine.distances.get? keyword.place = some (steps + 1) := by
        rw [stands.distance_eq extends_ reads.binds, reaching.settled.binds.2,
          reaching.settled.lexeme, around]
      have around' : scopes'.distance? "super" = some (steps + 1) := by
        rw [← reads.lexeme, ← reads.binds.2, ← stands.sound.distances, distance]
      refine ⟨steps, distance, Action.localValue_eq reached found, reachedOuter, ?_⟩
      rcases stands.covers.has_or_begun usable around' reachedOuter with has | ⟨-, begun⟩
      · exact has
      · cases reads.complete.1.symm.trans (Scopes.state?_of_incompleteHere begun)

theorem InBody.evaluate_super (holds : method.Holds settlement final object bound)
    (leadsTo : Session.LeadsTo happens settlement final) {keyword name : Occurrence}
    (inBody : InBody happens bound rounds
      ⟨depth, .expression (.super keyword name), machine⟩) :
    ∃ superclass, machine.frames.here? method.frame "super" = some superclass ∧
      (Expr.super keyword name).evaluate (callWithin rounds depth) machine =
        match superclass with
        | .classValue description => Action.method description name object machine
        | _ => .error (.defect .superNotClass) machine := by
  obtain ⟨steps, distance, this, reached, has⟩ := inBody.super_at holds leadsTo
  obtain ⟨superclass, found⟩ := Option.isSome_iff_exists.mp has
  refine ⟨superclass, found, ?_⟩
  simp only [Expr.evaluate, Action.superMethod, Action.distanceOf, Bind.bind, EStateM.bind,
    distance, Nat.add_sub_cancel, Action.localValue_eq reached found, this]
  cases superclass <;> rfl

theorem Obtains.holds (obtains : Obtains happens object method bound)
    (leadsTo : Session.LeadsTo happens settlement final) :
    method.Holds settlement final object bound := by
  induction obtains with
  | @property _ _ _ _ target _ _ _ _ _ _ _ happened found noField taken boundAs =>
      have moment := leadsTo.moment happened
      obtain ⟨known, guarded, extends_⟩ := moment.guarded
      have ends := moment.ends
      rw [Execution.leaves, Action.leaves_of_ok taken] at ends
      obtain ⟨_, between, found', taken'⟩ := Action.ok_of_bind_ok taken
      cases found.symm.trans found'
      cases guarded.ready with
      | @expression _ _ scopes _ stands usable settled =>
          have settledTarget : target.Settled known scopes := settled
          have sound := (stands.evaluate usable settledTarget found).2
          obtain ⟨field, between', noField', taken''⟩ := Action.ok_of_bind_ok taken'
          cases noField'
          rw [noField] at taken''
          exact Class.Sound.holds sound extends_ taken'' boundAs ends
  | «super» around inBody taken boundAs induction =>
      obtain ⟨_, settledBody⟩ := induction.settled
      have moment := leadsTo.moment (inBody.inside leadsTo settledBody).1
      obtain ⟨known, guarded, extends_⟩ := moment.guarded
      have ends := moment.ends
      rw [Execution.leaves, Action.leaves_of_ok taken] at ends
      obtain ⟨superclass, found, evaluated⟩ := inBody.evaluate_super induction leadsTo
      rw [evaluated] at taken
      cases superclass with
      | classValue description =>
          cases guarded.ready with
          | expression stands =>
              have sound := stands.sound.values _ _ _ found
              exact Class.Sound.holds sound extends_ taken boundAs ends
      | nil | bool | number | string | function | native | object => cases taken
  | initializer happened executes boundAs =>
      have moment := leadsTo.moment happened
      obtain ⟨known, guarded, extends_⟩ := moment.guarded
      have starts := (leadsTo.moment (leadsTo.executes happened executes)).starts
      cases executes with
      | construct checked made found isBound =>
          cases (Action.leaves_of_ok checked).symm.trans (Action.leaves_checkCall _ _ _ _)
          cases made
          cases isBound
          cases guarded.ready with
          | call _ sound =>
              rw [boundAs.enclosing_eq (Frames.enclosing?_pushWith_size _ _ _)]
              exact (sound "init" _ found).holds extends_ starts

end Inside

namespace Session

/-- A bound method keeps its object: whatever a session runs, inside of the body of a
method that has been taken from an object `this` is always the object, and the frame where
it is found holds nothing else at any time. -/
theorem bound_methods_keep_objects (clock : Clock) (history : List (Budget × String))
    {object : Value} {method bound : Closure}
    (obtains : Obtains ((start clock).Happens history) object method bound) :
    (∀ rounds depth keyword machine,
      InBody ((start clock).Happens history) bound rounds
          ⟨depth, .expression (.this keyword), machine⟩ →
        (Expr.this keyword).evaluate (callWithin rounds depth) machine =
            .ok object machine ∧
          machine.frames.home? machine.current "this" = some bound.frame) ∧
      (∀ rounds execution, (start clock).Happens history rounds execution →
        ∀ moment ∈ [execution.machine, execution.leaves rounds],
          bound.frame < moment.frames.size →
            moment.frames.namesOf bound.frame = ⟨[("this", object)]⟩) ∧
      ((start clock).after history).machine.frames.namesOf bound.frame =
        ⟨[("this", object)]⟩ := by
  have leadsTo := (guarded_start clock).leadsTo history
  have holds := obtains.holds leadsTo
  refine ⟨?_, ?_, holds.names⟩
  · intro rounds depth keyword machine inBody
    exact ⟨inBody.evaluate_this holds leadsTo, inBody.home?_this holds leadsTo⟩
  · intro rounds execution happened
    have moment := leadsTo.moment happened
    exact List.forall_mem_cons.mpr ⟨holds.namesOf moment.starts,
      List.forall_mem_singleton.mpr (holds.namesOf moment.ends)⟩

/-- An initializer knows its object. -/
theorem bound_methods_keep_objects_initializer :
    let source := "class A { init() { this; } } A();"
    let this : Expr := .this ⟨⟨.keyword .thisWord, "this", .nil, 1⟩, 7⟩
    ∃ object method bound machine,
      Obtains ((start 0).Happens [(⟨1, 1⟩, source)]) object method bound ∧
        InBody ((start 0).Happens [(⟨1, 1⟩, source)]) bound 1
            ⟨0, .expression this, machine⟩ ∧
          this.evaluate (callWithin 1 0) machine = .ok object machine := by
  intro source this
  let routine : Routine := .mk ⟨.identifier "init" 1, 3⟩ [] [.expression this]
  let declaration : Stmt := .classDecl ⟨.identifier "A" 1, 1⟩ none [routine]
  let paren : Occurrence := ⟨⟨.symbol .rightParen, ")", .nil, 1⟩, 13⟩
  let call : Stmt := .expression (.call (.variable ⟨.identifier "A" 1, 11⟩) paren [])
  have program : Program.ofSource (start 0).nextPlace source =
      ⟨[declaration, call], [], [], 15⟩ := by cbv
  have clean : (Program.ofSource (start 0).nextPlace source).Clean := by
    rw [program, ← Program.complaints_isEmpty_iff]
    cbv
  have statements : (Program.ofSource (start 0).nextPlace source).statements =
      [declaration] ++ call :: [] := by
    rw [program]
    rfl
  let method : Closure := ⟨routine, 0, true⟩
  let description : Class := ⟨1, "A", none, ⟨[("init", method)]⟩⟩
  -- The machine is not looked at any more once the class is found on it.
  obtain ⟨machine, done, found⟩ : ∃ machine,
      Action.runProgram ⟨1, 1⟩ [declaration]
          ((start 0).accept (.ofSource (start 0).nextPlace source)).machine =
        .ok () machine ∧
      Action.read ⟨.identifier "A" 1, 11⟩ machine =
        .ok (.classValue description) machine := by
    rw [program]
    exact ⟨_, rfl, rfl⟩
  have called : (start 0).Happens [(⟨1, 1⟩, source)] 1 ⟨1, .statement call, machine⟩ :=
    .now (.topLevel clean statements done)
  have constructed := (called.executes .inner).executes (.call found rfl)
  let object : Value := .object machine.objects.size description
  let bound : Closure := { method with frame := machine.frames.size }
  let started : Machine := { machine with
    objects := machine.objects.push Bindings.empty
    frames := machine.frames.pushWith 0 "this" object }
  have construct : Executes 1 ⟨1, .call paren (.classValue description) [], machine⟩
      ⟨0, .closure bound [], started⟩ := .construct rfl rfl rfl rfl
  have boundAs : method.BoundAs started.frames bound :=
    ⟨rfl, Frames.enclosing?_pushWith_size _ _ _⟩
  have obtains := Obtains.initializer constructed construct boundAs
  have inside := InBody.call (constructed.executes construct)
  have inBody := ((inside.executes (.body rfl) rfl).executes .firstStatement
    rfl).executes .inner rfl
  exact ⟨object, method, bound, _, obtains, inBody,
    ((bound_methods_keep_objects 0 _ obtains).1 _ _ _ _ inBody).1⟩

end Session

end LoxLang
