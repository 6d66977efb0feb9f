import LoxLang.Proofs.Moved.Session

/-! # Two texts run as one

A session that runs a text made up of two does the same as one that runs both, one after
the other. While the first text is run, one machine knows nothing yet about the second,
which makes no difference to it. Then both know the same, but one has printed something
already, and the words of the second text stand further down.
-/

namespace LoxLang

open Comparison Moved

theorem Action.runProgram_append (budget : Budget) (first second : List Stmt) :
    runProgram budget (first ++ second) =
      (do runProgram budget first; runProgram budget second) := by
  induction first with
  | nil => simp [runProgram]
  | cons statement rest induction => simp [runProgram, induction]

theorem Stop.Related.unique {move : Occurrence → Occurrence} {defects defects' : Prop}
    {stop one other : Stop}
    (first : Stop.Related (fun word word' => word' = move word) defects stop one)
    (second : Stop.Related (fun word word' => word' = move word) defects' stop other) :
    one = other := by
  cases first with
  | error same cause =>
      cases second with
      | error same' => rw [same, same']
  | unfinished =>
      cases second with
      | unfinished => rfl
  | defect =>
      cases second with
      | defect => rfl

def Ending.lowerFrom (start lines : Nat) : Ending → Ending
  | .stopped (.error error) =>
    .stopped (.error { error with token := error.token.lowerFrom start lines })
  | ending => ending

theorem Ending.isCompleted_lowerFrom {start lines : Nat} (ending : Ending) :
    (ending.lowerFrom start lines).isCompleted = ending.isCompleted := by
  rcases ending with _ | _ | _ | _ | _ <;> rfl

theorem Ending.lowerFrom_eq_unfinished {start lines : Nat} (ending : Ending) :
    ending.lowerFrom start lines = .stopped .unfinished ↔
      ending = .stopped .unfinished := by
  rcases ending with _ | _ | _ | _ | _ <;> simp [lowerFrom]

namespace Session

theorem conclude_lowered {setting : Setting} {start lines : Nat}
    (moves : setting.move = Occurrence.lowerFrom start lines)
    {result result' : EStateM.Result Stop Machine Unit}
    (ends : setting.comparison.Ends () (fun _ _ _ => True) result result')
    (session session' : Session) :
    (session'.conclude result').2.printed =
        setting.before.toList ++ (session.conclude result).2.printed ∧
      (session'.conclude result').2.ending =
        (session.conclude result).2.ending.lowerFrom start lines ∧
      (session'.conclude result').1.machine.globalTexts =
        (session.conclude result).1.machine.globalTexts := by
  have printed : ∀ {machine machine' : Machine}, setting.Holds machine machine' →
      machine'.printed.toList = setting.before.toList ++ machine.printed.toList := by
    intro machine machine' holds
    rw [holds.printed, Array.toList_append]
  cases ends with
  | ok _ holds _ => exact ⟨printed holds, rfl, (Setting.Holds.globalTexts holds).symm⟩
  | error _ holds stops =>
      refine ⟨printed holds, ?_, (Setting.Holds.globalTexts holds).symm⟩
      cases stops with
      | error same =>
          change _ = setting.move _ at same
          rw [same, moves]
          rfl
      | unfinished => rfl
      | defect => rfl

variable {session : Session} {first second : String}

abbrev programAfter (session : Session) (first second : String) : Program :=
  .ofSource (session.placeAfter first) second

def distancesOfBoth (session : Session) (first second : String) : Distances :=
  (session.accept (.ofSource session.nextPlace first)).machine.distances.recordAll
    (session.programAfter first second).findings

theorem get?_distancesOfBoth (session : Session) (first second : String) (place : Nat)
    (earlier : place < session.placeAfter first) :
    (session.distancesOfBoth first second).get? place =
      (session.accept
        (.ofSource session.nextPlace first)).machine.distances.get? place :=
  Program.get?_recordAll_of_outside _ fun inside => Nat.not_le.mpr earlier inside.1

def ahead (session : Session) (first second : String) : Setting :=
  lowering (session.placeAfter first) (newlinesOfSource first + 1)
    (session.placeAfter first) #[] (session.get?_distancesOfBoth first second)

def onward (session : Session) (first second : String) (before : Array String) :
    Setting :=
  @lowering (session.placeAfter first) (newlinesOfSource first + 1)
    (session.placeAfter first + (session.programAfter first second).length) before
    (session.distancesOfBoth first second) (session.distancesOfBoth first second)
    fun _ _ => rfl

theorem runs_onward {machine machine' : Machine}
    (holds : (session.ahead first second).Holds machine machine') (budget : Budget) :
    let setting := session.onward first second machine.printed
    let statements := (session.programAfter first second).statements
    setting.comparison.Ends () (fun _ _ _ => True)
      (Action.runProgram budget statements
        { machine with distances := session.distancesOfBoth first second, printed := #[] })
      (Action.runProgram budget (Stmt.mapAll setting.move statements) machine') := by
  intro setting statements
  have known : setting.Knows (Stmt.referencesOfAll statements) :=
    fun reference member => (Program.place_of_mem_references member).2
  have settled := holds.settle setting rfl (Nat.le_add_right _ _) #[]
  have distances : machine'.distances = setting.distances' := holds.distances'
  have printed : machine'.printed = setting.before ++ #[] := by
    rw [holds.printed, Array.append_empty]
    exact Array.empty_append
  rw [← distances, ← printed] at settled
  exact follows_runProgram budget statements known _ _ settled

section Runs

variable (steady : Steady session)
  (firstClean : (Program.ofSource session.nextPlace first).Clean)
  (secondClean : (session.programAfter first second).Clean)

include steady firstClean secondClean

theorem holds_ahead : (session.ahead first second).Holds
    (session.accept (.ofSource session.nextPlace first)).machine
    (session.accept (.ofSource session.nextPlace (first ++ "\n" ++ second))).machine := by
  have joint := Program.isJoint_ofLines firstClean secondClean
  have both : session.machine.distances.recordAll
      (Program.ofSource session.nextPlace (first ++ "\n" ++ second)).findings =
        session.distancesOfBoth first second := by
    rw [joint.findings, Distances.recordAll_append,
      Distances.recordAll_map Occurrence.place_lowerFrom]
    rfl
  have holds := steady (session.placeAfter first) (newlinesOfSource first + 1)
    (Nat.le_add_right _ _)
  have settled := holds.settle (session.ahead first second) rfl (Nat.le_add_right _ _)
    session.machine.printed
  change (session.ahead first second).Holds _ { session.machine with distances := _ }
  rw [both]
  have unprinted : (session.ahead first second).before ++ session.machine.printed =
      session.machine.printed := Array.empty_append
  rwa [unprinted] at settled

theorem runs_ahead (budget : Budget) :
    let program := Program.ofSource session.nextPlace first
    let alone :=
      Action.runProgram budget program.statements (session.accept program).machine
    let together := Action.runProgram budget program.statements
      (session.accept (.ofSource session.nextPlace (first ++ "\n" ++ second))).machine
    (∃ machine machine', alone = .ok () machine ∧ together = .ok () machine' ∧
      (session.ahead first second).Holds machine machine') ∨
    (∃ stop machine machine', alone = .error stop machine ∧
      together = .error stop machine' ∧
      (session.ahead first second).Holds machine machine') := by
  intro program alone together
  have known : (session.ahead first second).Knows
      (Stmt.referencesOfAll program.statements) :=
    fun reference member => (Program.place_of_mem_references member).2
  have fixed : Stmt.mapAll (session.ahead first second).move program.statements =
      program.statements := firstClean.lower (Nat.le_refl _) _
  have ends := follows_runProgram budget program.statements known _ _
    (holds_ahead steady firstClean secondClean)
  rw [fixed] at ends
  have unmoved := steady.ends firstClean budget (Nat.le_refl _) (newlinesOfSource first + 1)
  change (session.ahead first second).comparison.Ends () _ alone together at ends
  change (itself _ _ _ _).comparison.Ends () _ alone alone at unmoved
  generalize alone = result at ends unmoved ⊢
  generalize together = result' at ends ⊢
  cases ends with
  | ok _ holds => exact .inl ⟨_, _, rfl, rfl, holds⟩
  | error _ holds stops =>
      cases unmoved with
      | error _ _ same =>
          rcases Stop.Related.unique same stops with rfl
          exact .inr ⟨_, _, _, rfl, rfl, holds⟩

omit steady in
/-- Both texts together do what the first does and then what the second does. -/
theorem run_ofLines (budget : Budget) :
    let both := session.accept (.ofSource session.nextPlace (first ++ "\n" ++ second))
    session.run budget (first ++ "\n" ++ second) =
      both.conclude (EStateM.bind
        (Action.runProgram budget (Program.ofSource session.nextPlace first).statements)
        (fun _ => Action.runProgram budget (Stmt.mapAll (session.ahead first second).move
          (session.programAfter first second).statements)) both.machine) := by
  have joint := Program.isJoint_ofLines firstClean secondClean
  have run := session.run_of_clean budget _ joint.clean
  rwa [joint.statements, Action.runProgram_append] at run

omit steady firstClean in
theorem run_second {budget : Budget} {machine : Machine}
    (one : session.run budget first =
      (session.accept (.ofSource session.nextPlace first)).conclude (.ok () machine))
    (distances : machine.distances =
      (session.accept (.ofSource session.nextPlace first)).machine.distances) :
    let accepted :=
      (session.run budget first).1.accept (session.programAfter first second)
    (session.run budget first).1.run budget second =
      accepted.conclude (Action.runProgram budget
        (session.programAfter first second).statements
        { machine with
          distances := session.distancesOfBoth first second, printed := #[] }) := by
  intro accepted
  have place : (session.run budget first).1.nextPlace = session.placeAfter first :=
    session.nextPlace_run budget first
  have run := (session.run budget first).1.run_of_clean budget second
    (by rw [place]; exact secondClean)
  rw [place] at run
  have machineAccepted : accepted.machine =
      { machine with distances := session.distancesOfBoth first second, printed := #[] } := by
    rw [distancesOfBoth, ← distances]
    change ((session.run budget first).1.accept _).machine = _
    rw [one]
    rfl
  rw [run, ← machineAccepted]

theorem run_ofLines_of_completed {budget : Budget}
    (completed : (session.run budget first).2.ending = .completed) :
    let one := session.run budget first
    let two := one.1.run budget second
    let both := session.run budget (first ++ "\n" ++ second)
    both.2.printed = one.2.printed ++ two.2.printed ∧
      both.2.ending =
        two.2.ending.lowerFrom (session.placeAfter first) (newlinesOfSource first + 1) ∧
      both.1.machine.globalTexts = two.1.machine.globalTexts := by
  have one := session.run_of_clean budget first firstClean
  have both := run_ofLines firstClean secondClean budget
  simp only [EStateM.bind] at both
  rcases runs_ahead steady firstClean secondClean budget with
    ⟨machine, machine', alone, together, holds⟩ | ⟨stop, machine, machine', alone, -, -⟩
  · rw [alone] at one
    rw [together] at both
    have two := run_second secondClean one holds.distances
    have printed : (session.run budget first).2.printed = machine.printed.toList := by
      rw [one]
      rfl
    intro
    rw [both, two, printed]
    exact conclude_lowered rfl (runs_onward holds budget) _ _
  · rw [one, alone] at completed
    exact nomatch completed

theorem run_ofLines_of_stopped {budget : Budget} {stop : Stop}
    (stopped : (session.run budget first).2.ending = .stopped stop) :
    let one := session.run budget first
    let both := session.run budget (first ++ "\n" ++ second)
    both.2 = one.2 ∧ both.1.machine.globalTexts = one.1.machine.globalTexts := by
  have one := session.run_of_clean budget first firstClean
  have both := run_ofLines firstClean secondClean budget
  simp only [EStateM.bind] at both
  rcases runs_ahead steady firstClean secondClean budget with
    ⟨machine, machine', alone, -, -⟩ | ⟨stop, machine, machine', alone, together, holds⟩
  · rw [one, alone] at stopped
    exact nomatch stopped
  · rw [alone] at one
    rw [together] at both
    have printed : machine'.printed = machine.printed := by
      rw [holds.printed]
      exact Array.empty_append
    rw [one, both]
    refine ⟨?_, holds.globalTexts.symm⟩
    change Outcome.mk _ machine'.printed.toList = _
    rw [printed]
    rfl

end Runs

/-- After every history two texts without complaints have the same effects in one run as
in two. If the first is complete, what is printed is printed in one run, the second text
has the same result and the same global names are left with the same values; an error at a
word of the second text is reported further down by the lines of the first. If the first
text stops with an error, the second does not matter. -/
theorem runs_as_one (clock : Clock) (history : List (Budget × String)) (budget : Budget)
    {first second : String} (firstClean : IsClean first) (secondClean : IsClean second) :
    let session := (start clock).after history
    let one := session.run budget first
    let two := one.1.run budget second
    let both := session.run budget (first ++ "\n" ++ second)
    (one.2.ending = .completed →
      both.2.printed = one.2.printed ++ two.2.printed ∧
      both.2.ending.isCompleted = two.2.ending.isCompleted ∧
      both.1.machine.globalTexts = two.1.machine.globalTexts ∧
      (∀ error, two.2.ending = .stopped (.error error) →
        ∃ error', both.2.ending = .stopped (.error error') ∧
          error'.message = error.message ∧
          error'.line =
            if one.1.nextPlace ≤ error.token.place then
              error.line + (newlinesOfSource first + 1)
            else error.line) ∧
      (both.2.ending = .stopped .unfinished ↔ two.2.ending = .stopped .unfinished)) ∧
    (∀ error, one.2.ending = .stopped (.error error) →
      both.2 = one.2 ∧ both.1.machine.globalTexts = one.1.machine.globalTexts) := by
  intro session one two both
  have steady : Steady session := steady_after clock history
  have cleanHere : (Program.ofSource session.nextPlace first).Clean := firstClean.clean _
  have cleanAfter : (session.programAfter first second).Clean := secondClean.clean _
  refine ⟨fun completed => ?_, fun error stopped =>
    run_ofLines_of_stopped steady cleanHere cleanAfter stopped⟩
  rcases run_ofLines_of_completed steady cleanHere cleanAfter completed with
    ⟨printed, ending, globals⟩
  change both.2.ending = two.2.ending.lowerFrom _ _ at ending
  refine ⟨printed, ?_, globals, ?_, ?_⟩
  · rw [ending]
    exact Ending.isCompleted_lowerFrom _
  · intro error failed
    rw [failed] at ending
    refine ⟨_, ending, rfl, ?_⟩
    rw [nextPlace_run]
    exact Occurrence.line_lowerFrom error.token
  · rw [ending]
    exact Ending.lowerFrom_eq_unfinished _

/-- An error of the second text is reported in the second line. -/
theorem runs_as_one_undefined :
    IsClean "print nil;" ∧ IsClean "print b;" ∧
      let both := (start 0).run ⟨1, 1⟩ ("print nil;" ++ "\n" ++ "print b;")
      both.2.printed = ["nil"] ∧ ∃ error, both.2.ending = .stopped (.error error) ∧
        error.message = "Undefined variable 'b'." ∧ error.line = 2 := by
  have firstClean : IsClean "print nil;" := by
    rw [IsClean]
    cbv
  have secondClean : IsClean "print b;" := by
    rw [IsClean]
    cbv
  have complete : ((start 0).run ⟨1, 1⟩ "print nil;").2 = ⟨.completed, ["nil"]⟩ := by cbv
  have stopped : (((start 0).run ⟨1, 1⟩ "print nil;").1.run ⟨1, 1⟩ "print b;").2 =
      ⟨.stopped (.error ⟨⟨.identifier "b" 1, 4⟩, .undefinedVariable "b"⟩), []⟩ := by cbv
  rcases (runs_as_one 0 [] ⟨1, 1⟩ firstClean secondClean).1
      (congrArg Outcome.ending complete) with
      ⟨printed, -, -, failed, -⟩
  rcases failed _ (congrArg Outcome.ending stopped) with ⟨error, ending, message, line⟩
  have both : ((start 0).run ⟨1, 1⟩ "print nil;").2.printed ++
      (((start 0).run ⟨1, 1⟩ "print nil;").1.run ⟨1, 1⟩ "print b;").2.printed =
        ["nil"] := by
    rw [complete, stopped]
    rfl
  refine ⟨firstClean, secondClean, printed.trans both, error, ending, message, ?_⟩
  rw [line]
  cbv

end Session

end LoxLang
