import LoxLang.Proofs.Lexical.Refinement
import LoxLang.Proofs.Lexical.Session
import LoxLang.Proofs.Session.Program

/-! # Sessions follow lexical scope

The machines of two sessions that have run the same texts correspond, however the runs
have ended. A text with complaints changes neither, and any other one is settled before it
is run.
-/

namespace LoxLang.Lexical

open Comparison

/-! ## Settling programs -/

def World.settle (world : World) (settlement : Settlement) : World :=
  { world with settlement }

variable {world : World} {settlement : Settlement} {frame : FrameId}

theorem Aligned.settle {scopes : Scopes} {view : View}
    (aligned : Aligned world scopes frame view) :
    Aligned (world.settle settlement) scopes frame view := by
  induction aligned with
  | topLevel => exact .topLevel
  | inside _ enclosed here elsewhere outerAligned =>
      exact .inside outerAligned enclosed here elsewhere

namespace World

section Settle

variable (later : world.settlement.Extends settlement)

include later

theorem Functions.settle {closure : Closure} {closure' : Closure View}
    (same : world.Functions closure closure') :
    (world.settle settlement).Functions closure closure' := by
  rcases same with ⟨routine, isInitializer, scopes, aligned, settled, this⟩
  exact ⟨routine, isInitializer, scopes, aligned.settle,
    Routine.settled_mono later _ _ settled, this⟩

theorem Methods.settle {closure : Closure} {closure' : Closure View}
    (same : world.Methods closure closure') :
    (world.settle settlement).Methods closure closure' := by
  rcases same with ⟨routine, isInitializer, scopes, aligned, settled⟩
  exact ⟨routine, isInitializer, scopes, aligned.settle,
    Routine.settled_mono later _ _ settled⟩

theorem Values.settle {value : Value} {value' : Value View}
    (same : world.Values value value') : (world.settle settlement).Values value value' :=
  same.imp (fun _ _ functions => functions.settle later)
    (fun _ _ methods => methods.settle later)

theorem Holds.settle {machine : LoxLang.Machine} {machine' : Machine}
    (holds : world.Holds frame machine machine') :
    (world.settle settlement).Holds frame
      { machine with distances := settlement.distances } machine' :=
  { holds with
    distances := rfl
    cells := fun found => rel_imp (holds.cells found) fun _ _ values =>
      values.settle later
    globals := holds.globals.imp fun _ _ values => values.settle later
    objects := fun object => rel_imp (holds.objects object) fun _ _ fields =>
      fields.imp fun _ _ values => values.settle later }

end Settle

theorem Holds.takePrinted {machine : LoxLang.Machine} {machine' : Machine}
    (holds : world.Holds frame machine machine') :
    machine.takePrinted.1 = machine'.takePrinted.1 ∧
      world.Holds frame machine.takePrinted.2 machine'.takePrinted.2 :=
  ⟨congrArg Array.toList holds.printed, { holds with printed := rfl }⟩

theorem Holds.globalTexts {machine : LoxLang.Machine} {machine' : Machine}
    (holds : world.Holds frame machine machine') :
    machine.globalTexts = machine'.globalTexts :=
  holds.globals.map_sorted _ _ fun _ _ values => Values.text values

end World

/-! ## Programs -/

theorem runProgram_follows (budget : Budget) {world : World} :
    ∀ statements : List Stmt, Stmt.SettledAll world.settlement [] statements →
      (comparison LoxLang.Machine.globals (some LoxLang.Machine.globals)).Follows world
        (Action.runProgram budget statements) (runProgram budget statements) fun _ _ _ =>
          True
  | [], _ => .pure trivial
  | statement :: rest, ⟨settled, restSettled⟩ => by
      rw [Action.runProgram, runProgram]
      have exact_ : Exact world [] LoxLang.Machine.globals := nofun
      refine (execute_follows (callWithin_follows budget.rounds budget.depth) .topLevel
        exact_ statement settled).bind ?_
      intro grown _ _ grows _
      rw [Scopes.scopesAfter_nil] at restSettled
      exact runProgram_follows budget rest
        (Stmt.settledAll_mono grows.settlement _ _ restSettled)

/-! ## The machines before any text -/

namespace World

def initial : World where
  settlement := ⟨Distances.empty, 0⟩
  frameCount := 1
  cellCount := 0
  enclosing _ := none
  cellOf _ _ := none
  Full _ := False
  positive := Nat.one_pos
  outermost := rfl
  enclosing_lt := nofun
  frame_lt := nofun
  cell_lt := nofun
  injective := nofun
  globals _ := rfl

theorem holds_bare (clock : Clock) :
    initial.Holds LoxLang.Machine.globals (.bare clock) (.bare clock) where
  distances := rfl
  current := rfl
  frame_lt := Nat.one_pos
  frameCount := rfl
  enclosing frame := by
    rw [LoxLang.Machine.bare, Frames.enclosing?_push]
    split <;> rfl
  cellCount := rfl
  cells := nofun
  full := nofun
  unnamed := by
    intro frame name local_ _
    rw [LoxLang.Machine.bare, Frames.here?, Frames.namesOf_push]
    split <;> rfl
  supers := by
    intro frame value local_ found
    rw [LoxLang.Machine.bare, Frames.here?, Frames.namesOf_push] at found
    split at found <;> cases found
  globals := Bindings.Related.empty
  objects _ := .none
  objectCount := rfl
  printed := rfl
  identities := rfl
  clock := rfl

theorem holds_initial (clock : Clock) :
    initial.Holds LoxLang.Machine.globals (.initial clock) (.initial clock) := by
  have total : Native.IsTotal ⟨0, 0, .clock⟩ := trivial
  exact World.Holds.defineGlobal { holds_bare clock with identities := rfl }
    (.native total)

end World

/-! ## Sessions -/

/-- Two sessions that have run the same texts. -/
structure Session.Agrees (session : LoxLang.Session) (lexical : Session) : Prop where
  nextPlace : session.nextPlace = lexical.nextPlace
  machines : ∃ world : World,
    world.Holds LoxLang.Machine.globals session.machine lexical.machine ∧
      world.settlement.Fresh ∧ world.settlement.limit = session.nextPlace

namespace Session

/-- Two outcomes that are the same, and not the discovery of a defect. -/
structure SameOutcome (outcome outcome' : Outcome) : Prop where
  same : outcome = outcome'
  sound : ∀ defect, outcome.ending ≠ .stopped (.defect defect)

theorem agrees_start (clock : Clock) : Agrees (.start clock) (.start clock) where
  nextPlace := rfl
  machines := ⟨.initial, World.holds_initial clock, fun _ _ => by
    simp [World.initial, Distances.get?, Distances.empty], rfl⟩

variable {session : LoxLang.Session} {lexical : Session}

theorem Agrees.conclude {world : World} {own : Option FrameId}
    {post : World → Unit → Unit → Prop}
    {result : EStateM.Result Stop LoxLang.Machine Unit}
    {result' : EStateM.Result Stop Machine Unit}
    (ends : (comparison LoxLang.Machine.globals own).Ends world post result result')
    (fresh : world.settlement.Fresh)
    (limit : world.settlement.limit = session.nextPlace) :
    SameOutcome (session.conclude result).2 (conclude session.nextPlace result').2 ∧
      Agrees (session.conclude result).1 (conclude session.nextPlace result').1 := by
  cases ends with
  | @ok grown _ _ machine machine' grows holds _ =>
      rcases World.Holds.takePrinted holds with ⟨printed, holds⟩
      rw [LoxLang.Session.conclude, Session.conclude, printed]
      have settled := World.Grows.settled grows
      exact ⟨⟨rfl, fun _ => nofun⟩, rfl, grown, holds, settled ▸ fresh, settled ▸ limit⟩
  | @error grown stop stop' machine machine' grows holds stops =>
      rcases World.Holds.takePrinted holds with ⟨printed, holds⟩
      rw [LoxLang.Session.conclude, Session.conclude, printed]
      have settled := World.Grows.settled grows
      refine ⟨?_, rfl, grown, holds, settled ▸ fresh, settled ▸ limit⟩
      cases stops with
      | error same cause =>
          rcases same with rfl
          exact ⟨rfl, fun _ => nofun⟩
      | unfinished => exact ⟨rfl, fun _ => nofun⟩
      | defect impossible => exact impossible.elim

theorem Agrees.run (agrees : Agrees session lexical) (budget : Budget) (source : String) :
    SameOutcome (session.run budget source).2 (lexical.run budget source).2 ∧
      Agrees (session.run budget source).1 (lexical.run budget source).1 := by
  rcases agrees with ⟨nextPlace, world, holds, fresh, limit⟩
  rw [Session.run, ← nextPlace]
  split
  case isTrue clean =>
      rw [Program.complaints_isEmpty_iff] at clean
      rw [LoxLang.Session.run_of_clean _ _ _ clean]
      rw [← limit] at clean
      have settled := Settlement.settledAll_after fresh clean
      have later := Settlement.extends_after world.settlement source
      have freshLater := fresh.after source
      rw [limit] at settled later freshLater
      have accepted : (session.accept (.ofSource session.nextPlace source)).machine =
          { session.machine with
            distances :=
              (world.settlement.after (.ofSource session.nextPlace source)).distances } := by
        rw [LoxLang.Session.accept, Settlement.after, World.Holds.distances holds]
      rw [accepted]
      exact Agrees.conclude
        (runProgram_follows budget _ settled _ _ (World.Holds.settle later holds)) freshLater
        (congrArg (· + (Program.ofSource session.nextPlace source).length) limit)
  case isFalse unclean =>
      rw [Program.complaints_isEmpty_iff] at unclean
      rw [LoxLang.Session.run_of_complaints _ _ _ unclean]
      have later : world.settlement.Extends ⟨world.settlement.distances,
          session.nextPlace + (Program.ofSource session.nextPlace source).length⟩ :=
        ⟨by rw [limit]; exact Nat.le_add_right _ _, fun _ _ => rfl⟩
      have holds' := World.Holds.settle later holds
      rw [← World.Holds.distances holds] at holds'
      refine ⟨⟨rfl, fun _ => Ending.noConfusion⟩, rfl, _, holds', fun place known => ?_, rfl⟩
      exact World.Holds.distances holds ▸ fresh place (Nat.le_trans later.limit known)

theorem agrees_after (clock : Clock) (history : List (Budget × String)) :
    Agrees ((LoxLang.Session.start clock).after history) ((start clock).after history) := by
  suffices every : ∀ {session : LoxLang.Session} {lexical : Session},
      Agrees session lexical →
      Agrees (session.after history) (lexical.after history) from every
        (agrees_start clock)
  induction history with
  | nil => exact id
  | cons text later induction =>
      intro session lexical agrees
      exact induction (agrees.run text.1 text.2).2

/-- Lexical scoping: whatever a session has run before, and however that has ended, the
next text has the outcome that the rules of lexical scope give it, and leaves the same
global names behind. -/
theorem follows_lexical_scope (clock : Clock) (history : List (Budget × String))
    (budget : Budget) (source : String) :
    let session := (LoxLang.Session.start clock).after history
    let lexical := (start clock).after history
    (session.run budget source).2 = (lexical.run budget source).2 ∧
      (session.run budget source).1.machine.globalTexts =
        (lexical.run budget source).1.machine.globalTexts := by
  rcases (agrees_after clock history).run budget source with ⟨outcome, _, world, holds, _⟩
  exact ⟨outcome.same, World.Holds.globalTexts holds⟩

end Session

end LoxLang.Lexical
