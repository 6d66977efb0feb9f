import LoxLang.Proofs.Methods.Objects

/-! # Superclasses are found where methods are declared

The methods of a class with a superclass are made in a frame that holds the superclass.
That frame is reserved, so inside of these methods `super` is at any time the class that
the clause named when the declaration was executed, whatever the object is and whatever
has been assigned meanwhile.
-/

namespace LoxLang

open Names

/-! ## Methods of a declaration -/

theorem Class.of_methodTable {frame : FrameId} {methods : List Routine} {name : String}
    {method : Closure} (found : (methodTable frame methods).get? name = some method) :
    method.frame = frame ∧ method.routine ∈ methods :=
  @forall_methodTable frame methods
    (fun _ method => method.frame = frame ∧ method.routine ∈ methods)
    (fun _ member => ⟨rfl, member⟩) _ _ found

theorem Action.declareClass_ok {name : Occurrence} {clause : Option Occurrence}
    {methods : List Routine} {description : Class} {declared reached : Machine}
    (exists_ : declared.current < declared.frames.size)
    (done : declareClass name clause methods declared = .ok () reached)
    (made : reached.frames.here? declared.current name.lexeme =
      some (.classValue description)) :
    ∃ superclass, Action.superclass clause declared = .ok superclass declared ∧
      match superclass with
      | none => clause = none ∧
          description.methods = Class.methodTable declared.current methods
      | some parent =>
          description.methods = Class.methodTable declared.frames.size methods ∧
          reached.frames.namesOf declared.frames.size =
            ⟨[("super", .classValue parent)]⟩ := by
  obtain ⟨superclass, between, found, rest⟩ := ok_of_bind_ok done
  obtain rfl : between = declared := (leaves_of_ok found).symm.trans (leaves_superclass _ _)
  refine ⟨superclass, found, ?_⟩
  cases superclass with
  | none =>
      cases rest
      rw [Frames.here?_define _ (by simpa using exists_), if_pos ⟨rfl, rfl⟩] at made
      cases made
      refine ⟨?_, rfl⟩
      cases clause with
      | none => rfl
      | some word =>
          obtain ⟨value, _, _, found'⟩ := ok_of_bind_ok found
          cases value <;> cases found'
  | some parent =>
      cases rest
      let defined := between.frames.define between.current name.lexeme .nil
      have inner : between.current ≠ defined.size := by
        simpa [defined] using Nat.ne_of_lt exists_
      have here : between.current <
          (defined.pushWith between.current "super" (.classValue parent)).size := by
        simpa [defined] using Nat.lt_succ_of_lt exists_
      have size : defined.size = between.frames.size := Frames.size_define _
      change Frames.here? ((defined.pushWith between.current "super"
        (.classValue parent)).define between.current name.lexeme _) _ _ = _ at made
      rw [Frames.here?_define _ here, if_pos ⟨rfl, rfl⟩] at made
      cases made
      constructor
      · exact congrArg (Class.methodTable · methods) size
      change Frames.namesOf ((defined.pushWith between.current "super"
        (.classValue parent)).define between.current name.lexeme _) _ = _
      rw [Frames.namesOf_define _ here, ← size, if_neg inner, Frames.namesOf_pushWith,
        if_pos rfl]

/-! ## Classes with a superclass -/

section Declaration

variable {happens : Nat → Execution → Prop} {settlement known : Settlement} {final : Frames}
  {rounds depth : Nat} {object : Value} {method bound : Closure} {machine declared : Machine}
  {name keyword property : Occurrence} {clause : Option Occurrence}
  {methods : List Routine} {scopes : Scopes}

theorem Names.Stands.super_not_here (stands : Stands known scopes declared)
    (complete : scopes.Complete) (isOpen : ¬declared.frames.IsReserved declared.current) :
    scopes.distance? "super" ≠ some 0 := by
  intro here
  rcases stands.covers.has_or_begun complete.usable here rfl with has | ⟨-, begun⟩
  · exact isOpen ⟨"super", by decide, has⟩
  · exact complete "super" (Scopes.state?_of_incompleteHere begun)

theorem InBody.clause_ne_none
    (inBody : InBody happens bound rounds
      ⟨depth, .expression (.super keyword property), machine⟩)
    (leadsTo : Session.LeadsTo happens settlement final)
    (unreserved : name.lexeme ∉ reservedNames)
    (notHere : scopes.distance? "super" ≠ some 0)
    (settled : bound.routine.Settled settlement
      ((scopes.define name.lexeme).insideClass clause)) : clause ≠ none := by
  rintro rfl
  obtain ⟨inner, steps, reaching⟩ := inBody.reaching leadsTo settled
  obtain ⟨distance, around, here⟩ := reaching.settled.nested
  rw [reaching.distances "this" (by decide), Scopes.insideClass, Scopes.distance?_nest,
    if_pos (.head _), Option.map_some, Nat.zero_add] at here
  cases here
  have different : name.lexeme ≠ "super" := fun same => unreserved (same ▸ by decide)
  rw [reaching.distances "super" (by decide), Scopes.insideClass, Scopes.distance?_nest,
    if_neg (by decide), Scopes.define, Scopes.distance?_enter different] at around
  cases outside : scopes.distance? "super" with
  | none => simp [outside] at around
  | some distance =>
      rw [outside, Option.map_some, Option.map_some, Option.some_inj] at around
      obtain rfl : distance = 0 := by omega
      exact notHere outside

theorem InBody.here?_super (holds : method.Holds settlement final object bound)
    (leadsTo : Session.LeadsTo happens settlement final)
    (inBody : InBody happens bound rounds
      ⟨depth, .expression (.super keyword property), machine⟩)
    {frames : Frames} (retains : frames.Retains final) {parent : Class}
    (names : frames.namesOf method.frame = ⟨[("super", .classValue parent)]⟩) :
    machine.frames.here? method.frame "super" = some (.classValue parent) := by
  obtain ⟨_, settledBody⟩ := holds.settled
  have starts := (leadsTo.moment (inBody.inside leadsTo settledBody).1).starts
  obtain ⟨_, _, _, _, has⟩ := inBody.super_at holds leadsTo
  have reserved : frames.IsReserved method.frame := by
    refine ⟨"super", by decide, ?_⟩
    rw [Frames.Has, names]
    rfl
  have same := starts.namesOf_of_later (Frames.lt_size_of_has has)
    (retains.isReserved reserved)
  rw [Frames.here?, same, retains.reserved _ reserved, names]
  rfl

theorem InBody.get?_this (holds : method.Holds settlement final object bound)
    (leadsTo : Session.LeadsTo happens settlement final) {expression : Expr}
    (inBody : InBody happens bound rounds ⟨depth, .expression expression, machine⟩) :
    machine.frames.get? machine.current "this" = some object := by
  obtain ⟨_, settledBody⟩ := holds.settled
  obtain ⟨_, _, reaching⟩ := inBody.reaching leadsTo settledBody
  obtain ⟨-, names⟩ := inBody.this_eq holds leadsTo reaching
  rw [Frames.get?, inBody.home?_this holds leadsTo, Option.bind_some, Frames.here?, names]
  rfl

end Declaration

namespace Session

/-- `super` is bound where methods are declared: whatever a session runs, inside of the
body of a method that a class declaration has made and that has been taken from an object,
`super` stands for the class that the clause named when the declaration was executed. Its
method, if it has one, is bound to the object that `this` is there. -/
theorem super_is_static (clock : Clock) (history : List (Budget × String))
    {rounds depth rounds' depth' : Nat} {name keyword property : Occurrence}
    {clause : Option Occurrence} {methods : List Routine}
    {declared reached machine : Machine} {description : Class} {method bound : Closure}
    {object : Value} {methodName : String}
    (happened : (start clock).Happens history rounds
      ⟨depth, .statement (.classDecl name clause methods), declared⟩)
    (done : Action.declareClass name clause methods declared = .ok () reached)
    (made : reached.frames.here? declared.current name.lexeme =
      some (.classValue description))
    (member : description.methods.get? methodName = some method)
    (obtains : Obtains ((start clock).Happens history) object method bound)
    (inBody : InBody ((start clock).Happens history) bound rounds'
      ⟨depth', .expression (.super keyword property), machine⟩) :
    ∃ superclass, Action.superclass clause declared = .ok (some superclass) declared ∧
      machine.frames.get? machine.current "this" = some object ∧
        let result := (Expr.super keyword property).evaluate (callWithin rounds' depth') machine
        match superclass.findMethod? property.lexeme with
        | some found => ∃ identity frame after,
            result = .ok (.function identity { found with frame }) after ∧
              after.frames.enclosing? frame = some found.frame ∧
                after.frames.namesOf frame = ⟨[("this", object)]⟩
        | none => ∃ error : RuntimeError, result = .error (.error error) machine ∧
            error.token = property ∧
              error.message = "Undefined property '" ++ property.lexeme ++ "'." := by
  have leadsTo := (guarded_start clock).leadsTo history
  have holds := obtains.holds leadsTo
  have moment := leadsTo.moment happened
  obtain ⟨known, guarded, extends_⟩ := moment.guarded
  cases guarded.ready with
  | statement stands complete settled =>
      obtain ⟨admits, -, settledMethods⟩ := settled
      obtain ⟨superclass, found, table⟩ :=
        Action.declareClass_ok guarded.isOpen.exists_ done made
      cases superclass with
      | none =>
          obtain ⟨rfl, same⟩ := table
          rw [same] at member
          have settledRoutine := Routine.settled_mono extends_ _ _
            (Routine.settled_of_mem settledMethods (Class.of_methodTable member).2)
          rw [← holds.routine] at settledRoutine
          have notHere := stands.super_not_here complete guarded.isOpen.unreserved
          exact absurd rfl
            (inBody.clause_ne_none leadsTo admits.unreserved notHere settledRoutine)
      | some parent =>
          obtain ⟨same, names⟩ := table
          rw [same] at member
          rw [← (Class.of_methodTable member).1] at names
          have ends := moment.ends
          simp only [Execution.leaves, Stmt.execute] at ends
          rw [Action.leaves_bind_of_still fun _ _ => rfl, Action.leaves_of_ok done] at ends
          have super := inBody.here?_super holds leadsTo ends names
          obtain ⟨_, super', evaluated⟩ := inBody.evaluate_super holds leadsTo
          cases super.symm.trans super'
          refine ⟨parent, found, inBody.get?_this holds leadsTo, ?_⟩
          simp only [evaluated, Action.method]
          cases parent.findMethod? property.lexeme with
          | some found =>
              refine ⟨_, _, _, Action.boundMethod_eq found object machine,
                Frames.enclosing?_pushWith_size _ _ _, ?_⟩
              rw [Frames.namesOf_pushWith, if_pos rfl]
          | none => exact ⟨_, rfl, rfl, rfl⟩

/-- An initializer that uses the superclass of its class. -/
theorem super_is_static_initializer :
    let history := [(⟨1, 1⟩, "class A {} class B < A { init() { super.m; } } B();")]
    let word : Occurrence := ⟨.identifier "A" 1, 7⟩
    let super : Expr :=
      .super ⟨⟨.keyword .superWord, "super", .nil, 1⟩, 13⟩ ⟨.identifier "m" 1, 15⟩
    ∃ bound machine declared superclass,
      InBody ((start 0).Happens history) bound 1 ⟨0, .expression super, machine⟩ ∧
        Action.superclass (some word) declared = .ok (some superclass) declared := by
  intro history word super
  let session := start 0
  let source := "class A {} class B < A { init() { super.m; } } B();"
  let routine : Routine := .mk ⟨.identifier "init" 1, 9⟩ [] [.expression super]
  let first : Stmt := .classDecl ⟨.identifier "A" 1, 1⟩ none []
  let name : Occurrence := ⟨.identifier "B" 1, 5⟩
  let second : Stmt := .classDecl name (some word) [routine]
  let paren : Occurrence := ⟨⟨.symbol .rightParen, ")", .nil, 1⟩, 21⟩
  let call : Stmt := .expression (.call (.variable ⟨.identifier "B" 1, 19⟩) paren [])
  have program : Program.ofSource session.nextPlace source =
      ⟨[first, second, call], [], [], 23⟩ := by cbv
  have clean : (Program.ofSource session.nextPlace source).Clean := by
    rw [program, ← Program.complaints_isEmpty_iff]
    cbv
  have statements (before after : List Stmt) (statement : Stmt)
      (same : [first, second, call] = before ++ statement :: after) :
      (Program.ofSource session.nextPlace source).statements =
        before ++ statement :: after := by
    rw [program, ← same]
  let method : Closure := ⟨routine, 1, true⟩
  let parent : Class := ⟨1, "A", none, ⟨[]⟩⟩
  let description : Class := ⟨2, "B", some parent, ⟨[("init", method)]⟩⟩
  let clock : String × Value := ("clock", .native ⟨0, 0, .clock⟩)
  let distances : Distances := ⟨Array.replicate 13 none |>.push (some 2)⟩
  let declared : Machine :=
    { frames := ⟨#[⟨⟨[clock, ("A", .classValue parent)]⟩, none⟩]⟩
      current := 0, objects := #[], distances, printed := #[], identities := 2
      clock := 0 }
  let machine : Machine :=
    { frames := ⟨#[⟨⟨[clock, ("A", .classValue parent), ("B", .classValue description)]⟩,
        none⟩, ⟨⟨[("super", .classValue parent)]⟩, some 0⟩]⟩
      current := 0, objects := #[], distances, printed := #[], identities := 3
      clock := 0 }
  have start : (session.accept (.ofSource session.nextPlace source)).machine =
      { Machine.initial 0 with distances } := by
    rw [program]
    cbv
  have done : Action.runProgram ⟨1, 1⟩ [first]
      (session.accept (.ofSource session.nextPlace source)).machine = .ok () declared := by
    rw [start]
    rfl
  have declares : Action.declareClass name (some word) [routine] declared =
      .ok () machine := rfl
  have done' : Action.runProgram ⟨1, 1⟩ [first, second]
      (session.accept (.ofSource session.nextPlace source)).machine = .ok () machine := by
    have parts := Action.runProgram_append ⟨1, 1⟩ [first] [second]
    change Action.runProgram ⟨1, 1⟩ ([first] ++ [second]) _ = _
    rw [parts]
    change EStateM.bind _ _ _ = _
    rw [EStateM.bind, done]
    rfl
  have made : machine.frames.here? declared.current "B" = some (.classValue description) :=
    rfl
  have found : Action.read ⟨.identifier "B" 1, 19⟩ machine =
      .ok (.classValue description) machine := rfl
  clear_value declared machine
  have declaring : session.Happens history 1 ⟨1, .statement second, declared⟩ :=
    .now (.topLevel clean (statements _ _ _ rfl) done)
  have called : session.Happens history 1 ⟨1, .statement call, machine⟩ :=
    .now (.topLevel clean (statements _ _ _ rfl) done')
  have constructed := (called.executes .inner).executes (.call found rfl)
  let object : Value := .object machine.objects.size description
  let bound : Closure := { method with frame := machine.frames.size }
  let started : Machine := { machine with
    objects := machine.objects.push Bindings.empty
    frames := machine.frames.pushWith 1 "this" object }
  have construct : Executes 1 ⟨1, .call paren (.classValue description) [], machine⟩
      ⟨0, .closure bound [], started⟩ := .construct rfl rfl rfl rfl
  have boundAs : method.BoundAs started.frames bound :=
    ⟨rfl, Frames.enclosing?_pushWith_size _ _ _⟩
  have obtains := Obtains.initializer constructed construct boundAs
  have inside := InBody.call (constructed.executes construct)
  have inBody := ((inside.executes (.body rfl) rfl).executes .firstStatement
    rfl).executes .inner rfl
  have member : description.methods.get? "init" = some method := rfl
  obtain ⟨superclass, superFound, -⟩ :=
    super_is_static 0 history declaring declares made member obtains inBody
  exact ⟨bound, _, declared, superclass, inBody, superFound⟩

end Session

end LoxLang
