import LoxLang.Proofs.Binding.Ownership
import LoxLang.Proofs.Origins.History

/-! # References own their entries

What has been found about a program is recorded when the program is accepted, at places
that no other program takes. It stays there whatever is run later. The references in the
body of a function all come from one program, so a function goes on to use what has been
found about that program.
-/

namespace LoxLang

open LoxLang.Action Stage

/-! ## Steps -/

namespace Session

variable {session : Session} {step : Step} {program : Program}

theorem ofSource_of_program? (read : session.program? step = some program) :
    ∃ source, program = .ofSource session.nextPlace source ∧
      (session.opened step).nextPlace = session.nextPlace + program.length := by
  cases step with
  | run budget source =>
      cases read
      refine ⟨source, rfl, ?_⟩
      simp only [opened]
      split
      · rfl
      · rfl
  | runUnchecked budget source | runBlock budget source =>
      cases read
      exact ⟨source, rfl, rfl⟩
  | defineNative | callGlobal | reset => cases read

theorem takes_place (read : session.program? step = some program) {reference : Reference}
    (member : reference ∈ Stmt.referencesOfAll program.statements) :
    session.nextPlace ≤ reference.occurrence.place ∧
      reference.occurrence.place < (session.opened step).nextPlace := by
  rcases ofSource_of_program? read with ⟨source, rfl, next⟩
  rw [next]
  exact Program.place_of_mem_references member

theorem extends_opened (session : Session) (step : Step) :
    session.settlement.Extends (session.opened step).settlement ∧
      (session.settlement.Fresh → (session.opened step).settlement.Fresh) := by
  have accepted : ∀ source,
      session.settlement.Extends
          (session.accept (.ofSource session.nextPlace source)).settlement ∧
        (session.settlement.Fresh →
          (session.accept (.ofSource session.nextPlace source)).settlement.Fresh) :=
    fun source => ⟨Settlement.extends_after session.settlement source,
      fun fresh => fresh.after source⟩
  cases step with
  | run budget source =>
      simp only [opened]
      split
      case isTrue => exact accepted source
      case isFalse =>
          have further := Nat.le_add_right session.nextPlace
            (Program.ofSource session.nextPlace source).length
          exact ⟨⟨further, fun _ _ => rfl⟩, fun fresh place later =>
            fresh place (Nat.le_trans further later)⟩
  | runUnchecked budget source | runBlock budget source => exact accepted source
  | defineNative | callGlobal | reset => exact ⟨.refl _, id⟩

theorem Accepts.entry (accepts : session.Accepts step program)
    (fresh : session.settlement.Fresh) {reference : Reference}
    (member : reference ∈ Stmt.referencesOfAll program.statements) :
    (session.opened step).machine.distances.get? reference.occurrence.place =
      program.distances.get? reference.occurrence.place := by
  rcases accepts with ⟨read, works⟩
  have unknown := fresh _ (takes_place read member).1
  have accepted : (session.opened step).machine.distances =
      session.machine.distances.recordAll program.findings := by
    cases step with
    | run budget source =>
        cases read
        simp only [work?] at works
        split at works
        case isTrue accepted => simp only [opened, accepted, if_true, accept]
        case isFalse => cases works
    | runUnchecked | runBlock =>
        cases read
        rfl
    | defineNative | callGlobal | reset => cases read
  rw [accepted]
  exact program.get?_recordAll_of_fresh unknown

theorem nextPlace_perform (session : Session) (action : Action α) :
    (session.perform action).1.nextPlace = session.nextPlace := by
  rw [perform]
  cases action session.machine <;> rfl

theorem nextPlace_take (session : Session) (step : Step) :
    (session.take step).nextPlace = (session.opened step).nextPlace := by
  cases step with
  | run budget source =>
      simp only [take, run, opened]
      split
      · split <;> exact nextPlace_perform _ _
      · rfl
  | runUnchecked | runBlock | defineNative | callGlobal => exact nextPlace_perform _ _
  | reset => rfl

theorem nextPlace_le_takeAll (session : Session) (steps : List Step) :
    session.nextPlace ≤ (session.takeAll steps).nextPlace := by
  induction steps generalizing session with
  | nil => exact Nat.le_refl _
  | cons step rest induction =>
      have first := (session.extends_opened step).1.limit
      rw [settlement, settlement, ← nextPlace_take] at first
      exact Nat.le_trans first (induction _)

theorem program?_before {between : List Step} {step' : Step} {later : Program}
    (read : session.program? step = some program)
    (read' : ((session.take step).takeAll between).program? step' = some later)
    {reference other : Reference}
    (member : reference ∈ Stmt.referencesOfAll program.statements)
    (member' : other ∈ Stmt.referencesOfAll later.statements) :
    reference.occurrence.place < other.occurrence.place := by
  have first := (takes_place read member).2
  rw [← nextPlace_take] at first
  exact Nat.lt_of_lt_of_le first
    (Nat.le_trans (nextPlace_le_takeAll _ between) (takes_place read' member').1)

end Session

/-! ## Deeds -/

namespace Stage

variable {sources : Sources} {stage : Stage} {deed : Deed} {deeds : List Deed}
  {machine : Machine} {hands : List Value} {task : Option Task} {program : Program}

theorem Ready.settlement (ready : stage.Ready sources deed) :
    (stage.after deed).session.settlement = (stage.opened deed).settlement := by
  have distances := ready.advances.distances
  have place : (stage.after deed).session.nextPlace = (stage.opened deed).nextPlace := by
    cases deed with
    | step step => exact Session.nextPlace_take _ _
    | operation => exact Session.nextPlace_perform _ _
  rw [Session.settlement, Session.settlement, place]
  exact congrArg (Settlement.mk · _) distances

theorem Ready.extends_ (ready : stage.Ready sources deed) :
    stage.session.settlement.Extends (stage.after deed).session.settlement ∧
      (stage.session.settlement.Fresh → (stage.after deed).session.settlement.Fresh) := by
  rw [ready.settlement]
  cases deed with
  | step step => exact stage.session.extends_opened step
  | operation => exact ⟨.refl _, id⟩

theorem Ready.distances {step : Session.Step} {work : Work} {execution : Execution}
    (ready : stage.Ready sources (.step step))
    (works : stage.session.work? step = some work)
    (undergoes : work.Undergoes (stage.session.opened step).machine execution) :
    execution.machine.distances = (stage.session.opened step).machine.distances ∧
      (execution.leaves work.budget.rounds).distances =
        (stage.session.opened step).machine.distances := by
  rcases ready.during works undergoes with ⟨traced, starts, -⟩
  exact ⟨starts.distances, traced.leaves.proceeds.distances.trans starts.distances⟩

theorem Arrives.keeps (arrives : stage.Arrives deeds machine hands task)
    (course : Course sources stage deeds) {place : Nat}
    (earlier : place < stage.session.nextPlace) :
    machine.distances.get? place = stage.machine.distances.get? place := by
  induction arrives with
  | now => rfl
  | @starts stage step _ _ works undergoes =>
      rw [(course.ready.distances works undergoes).1]
      exact (stage.session.extends_opened step).1.distances place earlier
  | @ends stage step _ _ works undergoes =>
      rw [(course.ready.distances works undergoes).2]
      exact (stage.session.extends_opened step).1.distances place earlier
  | later _ induction =>
      have extends_ := course.ready.extends_.1
      exact (induction course.rest (Nat.lt_of_lt_of_le earlier extends_.limit)).trans
        (extends_.distances place earlier)

theorem Arrives.entry (arrives : stage.Arrives deeds machine hands task)
    (course : Course sources stage deeds) (fresh : stage.session.settlement.Fresh)
    (accepted : Sometime (Accepts · · program) stage deeds) {reference : Reference}
    (member : reference ∈ Stmt.referencesOfAll program.statements) :
    machine.distances.get? reference.occurrence.place =
      program.distances.get? reference.occurrence.place := by
  induction arrives with
  | now => cases accepted
  | starts works undergoes =>
      rw [(course.ready.distances works undergoes).1]
      cases accepted with
      | now accepts => exact Session.Accepts.entry accepts fresh member
      | later accepted => cases accepted
  | ends works undergoes =>
      rw [(course.ready.distances works undergoes).2]
      cases accepted with
      | now accepts => exact Session.Accepts.entry accepts fresh member
      | later accepted => cases accepted
  | @later stage deed rest _ _ _ arrives induction =>
      cases accepted with
      | now accepts =>
          cases deed with
          | operation => exact accepts.elim
          | step step =>
              -- The program has its places from the first step on, so what is read later
              -- does not count for it.
              have taken := (Session.takes_place accepts.1 member).2
              rw [← Session.nextPlace_take] at taken
              rw [arrives.keeps course.rest taken, course.ready.advances.distances]
              exact Session.Accepts.entry accepts fresh member
      | later accepted =>
          exact induction course.rest (course.ready.extends_.2 fresh) accepted

/-- The references all come from one program that one of the deeds has accepted. -/
def FromOneProgram (stage : Stage) (deeds : List Deed) (references : List Reference) : Prop :=
  ∃ program, Sometime (Accepts · · program) stage deeds ∧
    references ⊆ Stmt.referencesOfAll program.statements

theorem accepts_of_brings {steps : List Session.Step} {references : List Reference}
    (brings : Sometime (Brings · · references) stage (steps.map .step)) :
    stage.FromOneProgram (steps.map .step) references := by
  induction steps generalizing stage with
  | nil => cases brings
  | cons step rest induction =>
      cases brings with
      | now brings =>
          cases brings with
          | program accepts => exact ⟨_, .now accepts, List.Subset.refl _⟩
      | later brings =>
          rcases induction brings with ⟨program, accepted, inside⟩
          exact ⟨program, .later accepted, inside⟩

theorem fromOneProgram_of_read {steps : List Session.Step} {references : List Reference}
    (read : (stage.supply (steps.map .step)).Read references) :
    stage.FromOneProgram (steps.map .step) references := by
  rcases read with ⟨whole, brings, inside⟩
  rcases accepts_of_brings brings with ⟨program, accepted, inside'⟩
  exact ⟨program, accepted, fun _ member => inside' (inside member)⟩

theorem fresh_start (clock : Clock) : (start clock).session.settlement.Fresh := by
  intro place _
  rfl

end Stage

/-! ## Sessions -/

/-- References own their entries.

* Whatever tokens are parsed, the references in what comes out are at different places.
* The references of programs that a session reads one after another are at different
  places.
* Wherever the steps of a session lead to, what is known about the references of a program
  that has been accepted is what has been found about that program, be it a distance or
  that there is none. The references in a function that is in reach, in a method of a class
  that is in reach, or in what begins to be executed there all come from one such
  program. -/
theorem references_own_their_entries :
    (∀ firstPlace tokens parsed,
      Parsed.ofTokens? (Token.placedFrom firstPlace tokens) = some parsed →
        (Stmt.referencesOfAll parsed.statements).Pairwise
          (·.occurrence.place ≠ ·.occurrence.place)) ∧
      (∀ (session : Session) step between step' program later,
        session.program? step = some program →
        ((session.take step).takeAll between).program? step' = some later →
          ∀ reference ∈ Stmt.referencesOfAll program.statements,
            ∀ other ∈ Stmt.referencesOfAll later.statements,
              reference.occurrence.place ≠ other.occurrence.place) ∧
      ∀ (clock : Clock) (steps : List Session.Step) machine hands task,
        (start clock).PossibleAll (steps.map .step) →
        (start clock).Arrives (steps.map .step) machine hands task →
          (∀ program, Sometime (Accepts · · program) (start clock) (steps.map .step) →
            ∀ reference ∈ Stmt.referencesOfAll program.statements,
              machine.distances.get? reference.occurrence.place =
                program.distances.get? reference.occurrence.place) ∧
            (∀ identity closure, InReach machine hands (.function identity closure) →
              (start clock).FromOneProgram (steps.map .step) closure.routine.references) ∧
            (∀ description name method, InReach machine hands (.classValue description) →
              description.findMethod? name = some method →
                (start clock).FromOneProgram (steps.map .step) method.routine.references) ∧
            ∀ begun, task = some begun → begun.references ≠ [] →
              (start clock).FromOneProgram (steps.map .step) begun.references := by
  refine ⟨?_, ?_, ?_⟩
  · intro firstPlace tokens parsed isParsed
    have inOrder := (Token.placedFrom_inOrder firstPlace tokens).1
    exact (Parsed.drawn_references isParsed).pairwise (inOrder.imp Nat.ne_of_lt)
  · intro session step between step' program later read read' reference member other member'
    exact Nat.ne_of_lt (Session.program?_before read read' member member')
  · intro clock steps machine hands task possible arrives
    have course := course clock possible
    have reached := arrives.reached course
    refine ⟨fun program accepted reference member =>
      arrives.entry course (fresh_start clock) accepted member, ?_, ?_, ?_⟩
    · intro identity closure inReach
      have traced : closure.Traced _ machine :=
        inReach.traced reached.traced reached.hands
      exact fromOneProgram_of_read traced.read
    · intro description name method inReach found
      have traced : description.Traced _ machine :=
        inReach.traced reached.traced reached.hands
      exact fromOneProgram_of_read (traced.findMethod? found).read
    · exact fun begun isBegun some_ =>
        fromOneProgram_of_read (reached.read begun isBegun some_)

/-- A sum of equal variables, and a function that is still there when another text is run
that has a variable of the same name. -/
theorem references_own_their_entries_shared :
    let sum : List Token := [.identifier "a" 1, ⟨Symbol.plus, "+", .nil, 1⟩,
      .identifier "a" 1, ⟨Symbol.semicolon, ";", .nil, 1⟩, .endOfInput 1]
    let first : Session.Step := .runUnchecked ⟨1, 1⟩ "fun f(a) \x7b \x7b print a; \x7d \x7d"
    let second : Session.Step := .runUnchecked ⟨1, 1⟩ "print f; \x7b var a; print a; \x7d"
    let deeds : List Deed := [first, second].map .step
    (∃ parsed, Parsed.ofTokens? (Token.placedFrom 0 sum) = some parsed ∧
        (Stmt.referencesOfAll parsed.statements).length = 2 ∧
        (Stmt.referencesOfAll parsed.statements).Pairwise
          (·.occurrence.place ≠ ·.occurrence.place)) ∧
      ∃ program later machine hands task identity closure,
        (Session.start 0).program? first = some program ∧
          ((Session.start 0).take first).program? second = some later ∧
          (∀ reference ∈ Stmt.referencesOfAll program.statements,
            ∀ other ∈ Stmt.referencesOfAll later.statements,
              reference.occurrence.place ≠ other.occurrence.place) ∧
          (start 0).PossibleAll deeds ∧ (start 0).Arrives deeds machine hands (some task) ∧
          task.references ≠ [] ∧ (start 0).FromOneProgram deeds task.references ∧
          machine.frames.here? Machine.globals "f" = some (.function identity closure) ∧
          (start 0).FromOneProgram deeds closure.routine.references ∧
          machine.distances.get? 8 = some 1 ∧ machine.distances.get? 20 = some 0 := by
  intro sum first second deeds
  rcases references_own_their_entries with ⟨parsedApart, readApart, known⟩
  let word (lexeme : String) (place : Nat) : Occurrence := ⟨.identifier lexeme 1, place⟩
  have sumParsed : Parsed.ofTokens? (Token.placedFrom 0 sum) =
      some ⟨[.expression (.binary (.variable (word "a" 0)) .add
        ⟨⟨Symbol.plus, "+", .nil, 1⟩, 1⟩ (.variable (word "a" 2)))], []⟩ := by cbv
  let routine : Routine := .mk (word "f" 1) [word "a" 3]
    [.block [.print (.variable (word "a" 8))]]
  let program : Program := ⟨[.function routine], [], [], 12⟩
  let later : Program := ⟨[.print (.variable (word "f" 13)),
    .block [.var (word "a" 17) none, .print (.variable (word "a" 20))]], [], [], 11⟩
  have isProgram : Program.ofSource 0 "fun f(a) \x7b \x7b print a; \x7d \x7d" = program := by
    cbv
  have isLater : Program.ofSource 12 "print f; \x7b var a; print a; \x7d" = later := by cbv
  have read : (Session.start 0).program? first = some program := congrArg some isProgram
  have works : (Session.start 0).work? first = some (.program ⟨1, 1⟩ program.statements) := by
    change some (Work.program ⟨1, 1⟩ (Program.ofSource 0 _).statements) = _
    rw [isProgram]
  have next : ((Session.start 0).take first).nextPlace = 12 := by
    rw [Session.nextPlace_take]
    exact congrArg (0 + ·.length) isProgram
  have found : ((Session.start 0).take first).machine.frames.here? Machine.globals "f" =
      some (.function 1 ⟨routine, 0, false⟩) := by
    rcases Session.machine_opened (Session.start 0) first with ⟨_, opened⟩
    rw [Session.machine_take works, opened]
    rfl
  have accepts : (Session.start 0).Accepts first program :=
    ⟨read, Option.isSome_iff_exists.mpr ⟨_, works⟩⟩
  have possible : (start 0).PossibleAll deeds := ⟨trivial, trivial, trivial⟩
  have after : (start 0).after (.step first) = ⟨(Session.start 0).take first, []⟩ := rfl
  have apart := readApart (Session.start 0) first [] second program later read
  rw [Session.takeAll, List.foldl_nil] at apart
  generalize (Session.start 0).take first = session at next found after apart ⊢
  have read' : session.program? second = some later := by
    rw [Session.program?, next, isLater]
  have works' : session.work? second = some (.program ⟨1, 1⟩ later.statements) := by
    rw [Session.work?, next, isLater]
  have accepts' : session.Accepts second later :=
    ⟨read', Option.isSome_iff_exists.mpr ⟨_, works'⟩⟩
  have found' : (session.opened second).machine.frames.here? Machine.globals "f" =
      some (.function 1 ⟨routine, 0, false⟩) := by
    rcases session.machine_opened second with ⟨_, opened⟩
    rw [opened]
    exact found
  have arrives : (start 0).Arrives deeds (session.opened second).machine []
      (some (.statement (.print (.variable (word "f" 13))))) := by
    refine .later ?_
    rw [after]
    exact .starts works' (.begins .statement)
  have accepted : Sometime (Accepts · · program) (start 0) deeds := .now accepts
  have accepted' : Sometime (Accepts · · later) (start 0) deeds := by
    refine .later ?_
    rw [after]
    exact .now accepts'
  rcases known 0 [first, second] _ _ _ possible arrives with ⟨entries, functions, -, begins⟩
  have own := entries program accepted ⟨.variable, word "a" 8⟩ (.head _)
  have own' := entries later accepted' ⟨.variable, word "a" 20⟩ (.tail _ (.head _))
  have distance : program.distances.get? 8 = some 1 := by cbv
  have distance' : later.distances.get? 20 = some 0 := by cbv
  have some_ : Task.references (.statement (.print (.variable (word "f" 13)))) ≠ [] :=
    List.cons_ne_nil _ _
  refine ⟨⟨_, sumParsed, rfl, parsedApart _ _ _ sumParsed⟩, program, later, _, _, _, _, _,
    read, read', apart read', possible, arrives, some_, begins _ rfl some_, found', ?_,
    own.trans distance, own'.trans distance'⟩
  exact functions _ _ (.atHand (.named found'))

end LoxLang
