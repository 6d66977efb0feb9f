import LoxLang.Proofs.Methods.Executions
import LoxLang.Proofs.Names.Session
import LoxLang.Proofs.Session.Joint

/-! # What happens in a session

A session executes the programs of its texts, and everything that these execute happens
in its course. None of it changes what a reserved frame holds, so at any two moments of a
session, whichever comes first, such a frame holds the same.
-/

namespace LoxLang

open Names

/-! ## Between statements -/

/-- A machine between two statements at the top level. -/
structure Machine.Rests (settlement : Settlement) (machine : Machine) : Prop where
  sound : machine.Sound settlement
  isPure : machine.frames.Pure
  isOpen : machine.frames.IsOpen Machine.globals
  current : machine.current = Machine.globals

namespace Machine.Rests

variable {settlement : Settlement} {machine reached : Machine} {statement : Stmt}
  {statements : List Stmt}

theorem guarded (rests : machine.Rests settlement)
    (settled : statement.Settled settlement []) (depth : Nat) :
    Execution.Guarded settlement ⟨depth, .statement statement, machine⟩ where
  ready := .statement ⟨rests.sound, rests.current ▸ .topLevel⟩ Scopes.complete_nil settled
  isPure := rests.isPure
  isOpen := rests.current ▸ rests.isOpen

theorem later (rests : machine.Rests settlement) (later : retention.Later machine reached)
    (sound : reached.Sound settlement) (current : reached.current = machine.current) :
    reached.Rests settlement where
  sound := sound
  isPure := later.pure rests.isPure
  isOpen := later.isOpen rests.isOpen
  current := current.trans rests.current

theorem execute (rests : machine.Rests settlement)
    (settled : statement.Settled settlement []) (budget : Budget) :
    retention.Later machine
      ((statement.execute budget.caller budget.rounds).leaves machine) :=
  (governs_guarded settlement budget.rounds).later (rests.guarded settled budget.depth)

theorem executed (rests : machine.Rests settlement)
    (settled : statement.Settled settlement []) {budget : Budget} {completion : Completion}
    (done : statement.execute budget.caller budget.rounds machine =
      .ok completion reached) : reached.Rests settlement := by
  have keeps : Keeps settlement _ machine.frames Machine.globals
      (statement.execute budget.caller budget.rounds) _ :=
    keeps_execute (callWithin_keeps _ _) .topLevel Scopes.complete_nil statement settled
  obtain ⟨-, there, -⟩ := keeps.ok ⟨rests.sound, rfl, rests.current⟩ done
  have later := rests.execute settled budget
  rw [Action.leaves_of_ok done] at later
  exact rests.later later there.sound (there.current.trans rests.current.symm)

theorem runProgram (rests : machine.Rests settlement)
    (settled : Stmt.SettledAll settlement [] statements) (budget : Budget) :
    retention.Later machine ((Action.runProgram budget statements).leaves machine) := by
  induction statements generalizing machine with
  | nil => exact retention.refl machine
  | cons statement rest induction =>
      obtain ⟨first, others⟩ := settled
      rw [Scopes.scopesAfter_nil] at others
      rw [Action.runProgram]
      apply Development.bind (rests.execute first budget)
      intro completion between done _
      exact induction (rests.executed first done) others

theorem ranProgram (rests : machine.Rests settlement)
    (settled : Stmt.SettledAll settlement [] statements) {budget : Budget}
    (done : Action.runProgram budget statements machine = .ok () reached) :
    reached.Rests settlement := by
  obtain ⟨-, there, -⟩ := (keeps_runProgram budget settled).ok
    ⟨rests.sound, rfl, rests.current⟩ done
  have later := rests.runProgram settled budget
  rw [Action.leaves_of_ok done] at later
  exact rests.later later there.sound (there.current.trans rests.current.symm)

end Machine.Rests

/-! ## Between texts -/

namespace Session

structure Guarded (session : Session) : Prop where
  sound : session.Sound
  isPure : session.machine.frames.Pure
  isOpen : session.machine.frames.IsOpen Machine.globals

theorem guarded_start (clock : Clock) : (start clock).Guarded := by
  have empty : Frames.empty.Pure := by
    intro frame reserved
    exact absurd reserved.lt_size (Nat.not_lt_zero frame)
  have isOpen : (Frames.empty.push none).IsOpen Machine.globals := Frames.isOpen_push none
  have later : (Frames.empty.push none).Retains (start clock).machine.frames :=
    .define (by decide) isOpen.unreserved _
  exact ⟨sound_start clock, later.pure ((Frames.Retains.push none).pure empty),
    later.isOpen isOpen⟩

section Texts

variable {session : Session} {budget : Budget} {source : String}

theorem Guarded.rests (guarded : session.Guarded)
    (clean : (Program.ofSource session.nextPlace source).Clean) :
    (session.accept (.ofSource session.nextPlace source)).machine.Rests
      (session.accept (.ofSource session.nextPlace source)).settlement where
  sound := (guarded.sound.accept clean).1.machine
  isPure := guarded.isPure
  isOpen := guarded.isOpen
  current := guarded.sound.current

theorem frames_run (clean : (Program.ofSource session.nextPlace source).Clean) :
    (session.run budget source).1.machine.frames =
      ((Action.runProgram budget (Program.ofSource session.nextPlace source).statements).leaves
        (session.accept (.ofSource session.nextPlace source)).machine).frames := by
  rw [run_of_clean _ _ _ clean, Action.leaves]
  cases Action.runProgram budget _ _ <;> rfl

theorem Guarded.retains_run (guarded : session.Guarded) (budget : Budget)
    (source : String) :
    session.machine.frames.Retains (session.run budget source).1.machine.frames := by
  by_cases clean : (Program.ofSource session.nextPlace source).Clean
  · rw [frames_run clean]
    exact (guarded.rests clean).runProgram (guarded.sound.accept clean).2 budget
  · rw [run_of_complaints _ _ _ clean]
    exact .refl _

theorem Guarded.run (guarded : session.Guarded) (budget : Budget) (source : String) :
    (session.run budget source).1.Guarded where
  sound := guarded.sound.run budget source
  isPure := (guarded.retains_run budget source).pure guarded.isPure
  isOpen := (guarded.retains_run budget source).isOpen guarded.isOpen

theorem Guarded.retains_after (guarded : session.Guarded)
    (history : List (Budget × String)) :
    session.machine.frames.Retains (session.after history).machine.frames := by
  induction history generalizing session with
  | nil => exact .refl _
  | cons text later induction =>
      exact (guarded.retains_run text.1 text.2).trans (induction (guarded.run text.1 text.2))

/-! ## What is known about references -/

theorem Sound.settlement_run (sound : session.Sound)
    (clean : (Program.ofSource session.nextPlace source).Clean) :
    (session.run budget source).1.settlement =
      (session.accept (.ofSource session.nextPlace source)).settlement := by
  obtain ⟨sound', settled⟩ := sound.accept clean
  obtain ⟨-, soundMachine, -⟩ := (sound'.keeps budget settled).leaves sound'.machine
  rw [run_of_clean _ _ _ clean]
  have known := soundMachine.distances
  rw [Action.leaves] at known
  generalize Action.runProgram budget _ _ = result at *
  cases result with
  | ok _ machine => exact congrArg (Settlement.mk · _) known
  | error _ machine => exact congrArg (Settlement.mk · _) known

theorem Sound.extends_run (sound : session.Sound) (budget : Budget) (source : String) :
    session.settlement.Extends (session.run budget source).1.settlement := by
  by_cases clean : (Program.ofSource session.nextPlace source).Clean
  · rw [sound.settlement_run clean]
    exact Settlement.extends_after session.settlement source
  · rw [run_of_complaints _ _ _ clean]
    exact ⟨Nat.le_add_right _ _, fun _ _ => rfl⟩

theorem Sound.extends_after (sound : session.Sound) (history : List (Budget × String)) :
    session.settlement.Extends (session.after history).settlement := by
  induction history generalizing session with
  | nil => exact .refl _
  | cons text later induction =>
      exact (sound.extends_run text.1 text.2).trans (induction (sound.run text.1 text.2))

/-! ## Moments -/

theorem Guarded.reaches {execution : Execution} (guarded : session.Guarded)
    (reaches : session.Reaches budget source execution) :
    execution.Guarded (session.run budget source).1.settlement ∧
      retention.Later (execution.leaves budget.rounds) (session.run budget source).1.machine := by
  have governs := governs_guarded (session.run budget source).1.settlement budget.rounds
  induction reaches with
  | @topLevel before after statement machine clean statements done =>
      have settled := (guarded.sound.accept clean).2
      rw [statements] at settled
      obtain ⟨settledBefore, settledStatement, settledAfter⟩ :=
        Stmt.settledAll_append settled
      rw [Scopes.scopesAfter_nil] at settledAfter
      have rests := (guarded.rests clean).ranProgram settledBefore done
      rw [guarded.sound.settlement_run clean]
      constructor
      · exact rests.guarded settledStatement _
      change Frames.Retains _ (session.run budget source).1.machine.frames
      rw [frames_run clean, statements, Action.runProgram_append,
        Action.leaves_bind_of_ok done, Action.runProgram]
      exact retention.bind_rest fun completion between done' =>
        (rests.executed settledStatement done').runProgram settledAfter budget
  | part _ executes induction =>
      obtain ⟨guardedWhole, later⟩ := induction
      exact ⟨governs.holds_part guardedWhole executes,
        retention.trans (governs.ends guardedWhole executes) later⟩

end Texts

/-- An execution happens while a session runs one text after another. -/
inductive Happens : Session → List (Budget × String) → Nat → Execution → Prop
  | now {session : Session} {budget : Budget} {source : String}
      {rest : List (Budget × String)} {execution : Execution}
      (reaches : session.Reaches budget source execution) :
      Happens session ((budget, source) :: rest) budget.rounds execution
  | later {session : Session} {budget : Budget} {source : String}
      {rest : List (Budget × String)} {rounds : Nat} {execution : Execution}
      (happens : Happens (session.run budget source).1 rest rounds execution) :
      Happens session ((budget, source) :: rest) rounds execution

theorem Happens.executes {session : Session} {history : List (Budget × String)}
    {rounds : Nat} {whole part : Execution}
    (happens : session.Happens history rounds whole)
    (executes : Executes rounds whole part) : session.Happens history rounds part := by
  induction happens with
  | now reaches => exact .now (reaches.part executes)
  | later _ induction => exact .later (induction executes)

structure Moment (settlement : Settlement) (final : Frames) (rounds : Nat)
    (execution : Execution) : Prop where
  guarded : ∃ known : Settlement, execution.Guarded known ∧ known.Extends settlement
  starts : execution.machine.frames.Retains final
  ends : (execution.leaves rounds).frames.Retains final

/-- Whatever happens leads to one state, in which a session is in the end. -/
structure LeadsTo (happens : Nat → Execution → Prop) (settlement : Settlement)
    (final : Frames) : Prop where
  moment : ∀ {rounds execution}, happens rounds execution →
    Moment settlement final rounds execution
  executes : ∀ {rounds whole part}, happens rounds whole → Executes rounds whole part →
    happens rounds part

theorem Guarded.leadsTo {session : Session} (guarded : session.Guarded)
    (history : List (Budget × String)) :
    LeadsTo (session.Happens history) (session.after history).settlement
      (session.after history).machine.frames where
  executes := Happens.executes
  moment happens := by
    induction happens with
    | @now session budget source rest execution reaches =>
        obtain ⟨guardedExecution, ends⟩ := guarded.reaches reaches
        have guarded' := guarded.run budget source
        have later := (governs_guarded _ budget.rounds).later guardedExecution
        have final := Frames.Retains.trans ends (guarded'.retains_after rest)
        exact ⟨⟨_, guardedExecution, guarded'.sound.extends_after rest⟩,
          Frames.Retains.trans later final, final⟩
    | later _ induction => exact induction (guarded.run _ _)

end Session

end LoxLang
