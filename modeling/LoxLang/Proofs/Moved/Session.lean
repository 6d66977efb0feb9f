import LoxLang.Proofs.Moved.Evaluation
import LoxLang.Proofs.Session.Lines

/-! # Words that are still to come

A machine has no words of texts that are still to be run. So it is alike to itself when
the words from some later place on are moved.
-/

namespace LoxLang.Moved

open Comparison

/-! ## Programs -/

variable {setting : Setting}

theorem follows_runProgram (budget : Budget) :
    ∀ statements : List Stmt, setting.Knows (Stmt.referencesOfAll statements) →
      setting.Follows (Action.runProgram budget statements)
        (Action.runProgram budget (Stmt.mapAll setting.move statements)) fun _ _ => True := by
  intro statements known
  induction statements with
  | nil => exact .pure trivial
  | cons statement rest induction =>
      rw [Stmt.mapAll, Action.runProgram, Action.runProgram]
      rcases List.forall_mem_append.mp known with ⟨knownFirst, knownRest⟩
      refine (follows_execute (follows_callWithin budget.rounds budget.depth) statement
        knownFirst).bind ?_
      exact fun _ _ _ _ _ => induction knownRest

/-! ## Machines between programs -/

namespace Setting

theorem Holds.globalTexts {machine machine' : Machine}
    (holds : setting.Holds machine machine') :
    machine.globalTexts = machine'.globalTexts :=
  (holds.names Machine.globals).map_sorted _ _ fun _ _ values => Values.text values

theorem Closures.mono {later : Setting} (moves : later.move = setting.move)
    (limits : setting.limit ≤ later.limit) {closure closure' : Closure}
    (same : setting.Closures closure closure') : later.Closures closure closure' where
  routine := moves ▸ same.routine
  frame := same.frame
  isInitializer := same.isInitializer
  known reference member := Nat.lt_of_lt_of_le (same.known reference member) limits

theorem Holds.settle {machine machine' : Machine} (holds : setting.Holds machine machine')
    (later : Setting) (moves : later.move = setting.move)
    (limits : setting.limit ≤ later.limit) (printed : Array String) :
    later.Holds { machine with distances := later.distances, printed }
      { machine' with distances := later.distances', printed := later.before ++ printed } :=
  { holds with
    distances := rfl
    distances' := rfl
    printed := rfl
    names := fun frame => (holds.names frame).imp fun _ _ values =>
      values.imp (fun _ _ same => same.mono moves limits) fun _ _ same =>
        same.mono moves limits
    objects := fun object => rel_imp (holds.objects object) fun _ _ fields =>
      fields.imp fun _ _ values =>
        values.imp (fun _ _ same => same.mono moves limits) fun _ _ same =>
          same.mono moves limits }

end Setting

/-- The comparison to a machine for which the words from a place on stand some lines
further down, and which knows the same about the references below the limit. -/
def lowering (start lines limit : Nat) (before : Array String)
    {distances distances' : Distances}
    (agree : ∀ place, place < limit → distances'.get? place = distances.get? place) :
    Setting where
  move := Occurrence.lowerFrom start lines
  limit := limit
  distances := distances
  distances' := distances'
  before := before
  same := Occurrence.sameWords_lowerFrom
  agree word known := by
    rw [Occurrence.place_lowerFrom]
    exact agree _ known

abbrev itself (distances : Distances) (limit start lines : Nat) : Setting :=
  @lowering start lines limit #[] distances distances fun _ _ => rfl

/-- Nothing on the machine of a session would change if later words were moved down. -/
def Steady (session : Session) : Prop :=
  ∀ start lines, session.nextPlace ≤ start →
    (itself session.machine.distances session.nextPlace start lines).Holds session.machine
      session.machine

theorem holds_initial (setting : Setting) (distances : setting.distances = .empty)
    (distances' : setting.distances' = .empty) (before : setting.before = #[])
    (clock : Clock) : setting.Holds (.initial clock) (.initial clock) := by
  have bare : setting.Holds (.bare clock) (.bare clock) := {
    size := rfl
    enclosing := fun _ => rfl
    names := by
      intro frame
      rw [Machine.bare, Frames.namesOf_push]
      split <;> exact .empty
    current := rfl
    objects := fun _ => .none
    objectCount := rfl
    distances := distances.symm
    distances' := distances'.symm
    printed := by rw [before]; rfl
    identities := rfl
    clock := rfl }
  have counted : setting.Holds
      { Machine.bare clock with identities := 1 } { Machine.bare clock with identities := 1 } :=
    { bare with identities := rfl }
  have total : Native.IsTotal ⟨0, 0, .clock⟩ := trivial
  exact counted.define Machine.globals "clock" (.native total)

theorem steady_start (clock : Clock) : Steady (.start clock) :=
  fun start lines _ => holds_initial (itself .empty 0 start lines) rfl rfl rfl clock

theorem Setting.Holds.settleItself {distances distances' : Distances}
    {limit limit' start lines : Nat} {machine : Machine}
    (holds : (itself distances limit start lines).Holds machine machine)
    (limits : limit ≤ limit') (printed : Array String) :
    (itself distances' limit' start lines).Holds
      { machine with distances := distances', printed }
      { machine with distances := distances', printed } := by
  have settled := holds.settle (itself distances' limit' start lines) rfl limits printed
  change (itself distances' limit' start lines).Holds _
    { machine with distances := distances', printed := #[] ++ printed } at settled
  rwa [Array.empty_append] at settled

section Runs

variable {session : Session} {source : String}

theorem Steady.accept (steady : Steady session) {program : Program} {start : Nat}
    (later : session.nextPlace + program.length ≤ start) (lines : Nat) :
    (itself (session.accept program).machine.distances (session.accept program).nextPlace
      start lines).Holds (session.accept program).machine
      (session.accept program).machine :=
  (steady start lines (Nat.le_trans (Nat.le_add_right _ _) later)).settleItself
    (Nat.le_add_right _ _) session.machine.printed

/-- Running a program has the same result if later words are moved. -/
theorem Steady.ends (steady : Steady session)
    (clean : (Program.ofSource session.nextPlace source).Clean) (budget : Budget)
    {start : Nat}
    (later :
      session.nextPlace + (Program.ofSource session.nextPlace source).length ≤ start)
    (lines : Nat) :
    let accepted := session.accept (.ofSource session.nextPlace source)
    let result := Action.runProgram budget
      (Program.ofSource session.nextPlace source).statements accepted.machine
    (itself accepted.machine.distances accepted.nextPlace start lines).comparison.Ends ()
      (fun _ _ _ => True) result result := by
  intro accepted result
  have known : (itself accepted.machine.distances accepted.nextPlace start lines).Knows
      (Stmt.referencesOfAll (Program.ofSource session.nextPlace source).statements) :=
    fun reference member => (Program.place_of_mem_references member).2
  have ends := follows_runProgram budget _ known _ _ (steady.accept later lines)
  rwa [show (itself _ _ start lines).move = Occurrence.lowerFrom start lines from rfl,
    clean.lower later lines] at ends

theorem Steady.run (steady : Steady session) (budget : Budget) (source : String) :
    Steady (session.run budget source).1 := by
  by_cases clean : (Program.ofSource session.nextPlace source).Clean
  · rw [session.run_of_clean budget source clean]
    intro start lines later
    have place : ∀ (accepted : Session) result,
        (accepted.conclude result).1.nextPlace = accepted.nextPlace := by
      intro accepted result
      cases result <;> rfl
    rw [place] at later ⊢
    have ends := steady.ends clean budget later lines
    simp only at ends
    generalize Action.runProgram budget _ _ = result at ends ⊢
    cases result with
    | ok _ machine =>
        cases ends with
        | ok _ holds _ => exact Setting.Holds.settleItself holds (Nat.le_refl _) #[]
    | error stop machine =>
        cases ends with
        | error _ holds _ => exact Setting.Holds.settleItself holds (Nat.le_refl _) #[]
  · rw [session.run_of_complaints budget source clean]
    intro start lines later
    exact (steady start lines (Nat.le_trans (Nat.le_add_right _ _) later)).settleItself
      (Nat.le_add_right _ _) session.machine.printed

theorem steady_after (clock : Clock) (history : List (Budget × String)) :
    Steady ((Session.start clock).after history) := by
  suffices every : ∀ {session : Session}, Steady session →
      Steady (session.after history) from
    every (steady_start clock)
  induction history with
  | nil => exact id
  | cons text later induction => exact fun steady => induction (steady.run text.1 text.2)

end Runs

end LoxLang.Moved
