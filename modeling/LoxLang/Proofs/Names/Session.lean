import LoxLang.Proofs.Names.Executions
import LoxLang.Proofs.Session.Program

/-! # Sessions and names

A text without complaints is settled when a session runs it, on a machine on which
everything has been settled before. So every statement that is executed, be it at the top
level or in the body of a routine that an earlier text has declared, adds at most the one
name that it declares, and adds it to the frame it is executed in.
-/

namespace LoxLang

open Names

theorem Stmt.settledAll_append {settlement : Settlement} {before after : List Stmt}
    (settled : Stmt.SettledAll settlement [] (before ++ after)) :
    Stmt.SettledAll settlement [] before ∧ Stmt.SettledAll settlement [] after := by
  induction before with
  | nil => exact ⟨trivial, settled⟩
  | cons statement before induction =>
      rcases settled with ⟨first, others⟩
      rw [Scopes.scopesAfter_nil] at others
      rcases induction others with ⟨before, after⟩
      refine ⟨⟨first, ?_⟩, after⟩
      rwa [Scopes.scopesAfter_nil]

theorem Names.keeps_runProgram {settlement : Settlement} (budget : Budget)
    {frames : Frames} {statements : List Stmt}
    (settled : Stmt.SettledAll settlement [] statements) :
    Keeps settlement (.inFrame Machine.globals) frames Machine.globals
      (Action.runProgram budget statements) fun _ _ => True := by
  induction statements generalizing frames with
  | nil => exact .pure trivial
  | cons statement rest induction =>
      rcases settled with ⟨settled, restSettled⟩
      rw [Scopes.scopesAfter_nil] at restSettled
      rw [Action.runProgram]
      have first : Keeps settlement (.inFrame Machine.globals) frames Machine.globals
          (statement.execute budget.caller budget.rounds) fun _ _ => True :=
        ((keeps_execute (callWithin_keeps _ _) .topLevel Scopes.complete_nil statement
          settled).allow fun _ _ _ gained => gained.1).imp fun _ _ _ _ => trivial
      apply first.bind
      exact fun _ _ _ _ => induction restSettled

theorem Machine.sound_bare (clock : Clock) :
    (Machine.bare clock).Sound ⟨Distances.empty, 0⟩ where
  distances := rfl
  positive := Nat.one_pos
  values frame name value found := by
    rw [here?_bare] at found
    cases found
  objects _ _ _ _ := nofun

theorem Machine.sound_initial (clock : Clock) :
    (Machine.initial clock).Sound ⟨Distances.empty, 0⟩ := by
  have identified : Machine.Sound ⟨Distances.empty, 0⟩
      { Machine.bare clock with identities := 1 } := { Machine.sound_bare clock with }
  exact identified.define Machine.globals "clock" trivial

namespace Session

/-- Between texts the machine is in the global frame, and everything on it is settled. -/
structure Sound (session : Session) : Prop where
  machine : session.machine.Sound session.settlement
  current : session.machine.current = Machine.globals
  fresh : session.settlement.Fresh

theorem sound_start (clock : Clock) : (start clock).Sound where
  machine := Machine.sound_initial clock
  current := rfl
  fresh _ _ := rfl

section Texts

variable {session : Session} {source : String}

theorem Sound.accept (sound : session.Sound)
    (clean : (Program.ofSource session.nextPlace source).Clean) :
    (session.accept (.ofSource session.nextPlace source)).Sound ∧
      Stmt.SettledAll (session.accept (.ofSource session.nextPlace source)).settlement []
        (Program.ofSource session.nextPlace source).statements :=
  ⟨⟨sound.machine.settle (Settlement.extends_after session.settlement source), sound.current,
    sound.fresh.after source⟩, Settlement.settledAll_after sound.fresh clean⟩

theorem Sound.keeps (sound : session.Sound) (budget : Budget) {statements : List Stmt}
    (settled : Stmt.SettledAll session.settlement [] statements) :
    Keeps session.settlement (.inFrame Machine.globals) session.machine.frames
      session.machine.current (Action.runProgram budget statements) fun _ _ => True :=
  sound.current ▸ keeps_runProgram budget settled

theorem Sound.takePrinted (sound : session.Sound) {machine : Machine}
    (soundMachine : machine.Sound session.settlement)
    (current : machine.current = session.machine.current) (failed : Bool) :
    Sound { session with
      machine := machine.takePrinted.2, hadRuntimeError := failed } := by
  have same : Settlement.mk machine.takePrinted.2.distances session.nextPlace =
      session.settlement :=
    congrArg (Settlement.mk · session.nextPlace) soundMachine.distances
  refine ⟨?_, current.trans sound.current, ?_⟩
  · change Machine.Sound (Settlement.mk machine.takePrinted.2.distances _) _
    rw [same]
    exact { soundMachine with }
  · change (Settlement.mk machine.takePrinted.2.distances _).Fresh
    rw [same]
    exact sound.fresh

theorem Sound.conclude (sound : session.Sound) (budget : Budget) {statements : List Stmt}
    (settled : Stmt.SettledAll session.settlement [] statements) :
    (session.conclude (Action.runProgram budget statements session.machine)).1.Sound := by
  rcases (sound.keeps budget settled).leaves sound.machine with ⟨-, soundMachine, current⟩
  rw [Action.leaves] at soundMachine current
  generalize Action.runProgram budget statements session.machine = result at *
  cases result with
  | ok _ machine => exact sound.takePrinted soundMachine current _
  | error stop machine => exact sound.takePrinted soundMachine current _

theorem Sound.run (sound : session.Sound) (budget : Budget) (source : String) :
    (session.run budget source).1.Sound := by
  by_cases clean : (Program.ofSource session.nextPlace source).Clean
  · rw [run_of_clean _ _ _ clean]
    rcases sound.accept clean with ⟨sound', settled⟩
    exact sound'.conclude budget settled
  · rw [run_of_complaints _ _ _ clean]
    have later : session.settlement.Extends
        (session.reject (.ofSource session.nextPlace source)).settlement :=
      ⟨Nat.le_add_right _ _, fun _ _ => rfl⟩
    exact ⟨sound.machine.settle later, sound.current, fun place known =>
      sound.fresh place (Nat.le_trans later.limit known)⟩

theorem Sound.after (sound : session.Sound) (history : List (Budget × String)) :
    (session.after history).Sound := by
  induction history generalizing session with
  | nil => exact sound
  | cons text later induction => exact induction (sound.run text.1 text.2)

end Texts

/-! ## What a session executes -/

/-- What a session executes of a text: if there are no complaints, one statement of the
program after another, up to the first that stops, and whatever these execute. -/
inductive Reaches (session : Session) (budget : Budget) (source : String) :
    Execution → Prop
  | topLevel {before after : List Stmt} {statement : Stmt} {machine : Machine}
      (clean : (Program.ofSource session.nextPlace source).Clean)
      (statements : (Program.ofSource session.nextPlace source).statements =
        before ++ statement :: after)
      (done : Action.runProgram budget before
        (session.accept (.ofSource session.nextPlace source)).machine = .ok () machine) :
      Reaches session budget source ⟨budget.depth, .statement statement, machine⟩
  | part {whole part : Execution} (reaches : Reaches session budget source whole)
      (executes : Executes budget.rounds whole part) : Reaches session budget source part

theorem Sound.ready {session : Session} {budget : Budget} {source : String}
    {execution : Execution} (sound : session.Sound)
    (reaches : session.Reaches budget source execution) :
    Ready (session.accept (.ofSource session.nextPlace source)).settlement execution := by
  induction reaches with
  | topLevel clean statements done =>
      rcases sound.accept clean with ⟨sound', settled⟩
      rw [statements] at settled
      rcases Stmt.settledAll_append settled with ⟨before, first, -⟩
      rcases (sound'.keeps budget before).ok ⟨sound'.machine, rfl, rfl⟩ done with
        ⟨grows, there, -⟩
      refine .statement ⟨there.sound, ?_⟩ Scopes.complete_nil first
      rw [there.current, sound'.current]
      exact .topLevel
  | part _ executes ready => exact ready.executes executes

/-- Only declarations create variables: whatever a session has run before, each statement
that it executes, however deep in calls and however it ends, leaves every frame that was
there with the names it had. Only the frame of the statement may have gained a name, the
one that the statement declares. -/
theorem only_declarations_bind (clock : Clock) (history : List (Budget × String))
    (budget : Budget) (source : String) {depth : Nat} {statement : Stmt}
    {machine : Machine}
    (reaches : ((start clock).after history).Reaches budget source
      ⟨depth, .statement statement, machine⟩) :
    let later := (statement.execute (callWithin budget.rounds depth) budget.rounds).leaves
      machine
    ∀ frame < machine.frames.size, ∀ name,
      (machine.frames.Has frame name → later.frames.Has frame name) ∧
        (later.frames.Has frame name → machine.frames.Has frame name ∨
          (frame = machine.current ∧
            ∃ declared ∈ statement.declared?, declared.lexeme = name)) := by
  have ready := ((sound_start clock).after history).ready reaches
  intro later frame exists_ name
  have grows : machine.frames.Grows _ later.frames := ready.grows
  exact ⟨grows.kept frame name, grows.gained frame exists_ name⟩

/-- A variable of a block is no global name. -/
theorem only_declarations_bind_inBlock :
    let declaration : Stmt := .var ⟨.identifier "a" 1, 2⟩ none
    ∃ machine : Machine,
      (start 0).Reaches ⟨1, 1⟩ "{ var a; }" ⟨1, .statement declaration, machine⟩ ∧
        let later := (declaration.execute (callWithin 1 1) 1).leaves machine
        later.frames.Has 1 "a" ∧ ¬later.frames.Has Machine.globals "a" := by
  intro declaration
  have clean : (Program.ofSource 0 "{ var a; }").Clean := by
    rw [← Program.complaints_isEmpty_iff]
    cbv
  have statements : (Program.ofSource 0 "{ var a; }").statements =
      [] ++ Stmt.block [declaration] :: [] := by cbv
  have block : (start 0).Reaches ⟨1, 1⟩ "{ var a; }" _ := .topLevel clean statements rfl
  have inside := (block.part (.block rfl)).part .firstStatement
  refine ⟨_, inside, by decide, fun has => ?_⟩
  rcases (only_declarations_bind 0 [] ⟨1, 1⟩ "{ var a; }" inside Machine.globals
    (by decide) "a").2 has with before | ⟨here, -⟩
  · exact absurd before (by decide)
  · cases here

end Session

end LoxLang
