import LoxLang.Proofs.Lexical.Agreement
import LoxLang.Proofs.Renaming.Evaluation
import LoxLang.Proofs.Renaming.Program

/-! # Runs of renamed programs

A session does the same when it runs a text with a renamed declaration. Both texts do what
the rules of lexical scope say, and by these rules both see the same cells. In what the
session has run before, nothing is renamed, so its machine is alike to itself.
-/

namespace LoxLang

open Comparison

def Ending.runtimeLine? : Ending → Option Nat
  | .stopped (.error error) => some error.line
  | _ => none

/-- Two runs are complete, or both are unfinished, or they stop for the same reason on the
same line. -/
inductive Ending.Resembles : Ending → Ending → Prop
  | completed : Resembles .completed .completed
  | error {error error' : RuntimeError} (cause : error'.cause = error.cause)
      (line : error'.line = error.line) :
      Resembles (.stopped (.error error)) (.stopped (.error error'))
  | unfinished : Resembles (.stopped .unfinished) (.stopped .unfinished)

namespace Ending.Resembles

variable {ending ending' ending'' : Ending}

theorem trans (first : ending.Resembles ending') (second : ending'.Resembles ending'') :
    ending.Resembles ending'' := by
  cases first with
  | completed | unfinished => exact second
  | error cause line =>
      cases second with
      | error cause' line' => exact .error (cause'.trans cause) (line'.trans line)

variable (same : ending.Resembles ending')

include same

theorem sound (defect : Defect) : ending' ≠ .stopped (.defect defect) := by
  cases same <;> nofun

theorem isCompleted : ending'.isCompleted = ending.isCompleted := by
  cases same <;> rfl

theorem runtimeMessage : ending'.runtimeMessage? = ending.runtimeMessage? := by
  cases same with
  | completed | unfinished => rfl
  | error cause _ =>
      rw [runtimeMessage?, runtimeMessage?, RuntimeError.message, RuntimeError.message, cause]

theorem runtimeLine : ending'.runtimeLine? = ending.runtimeLine? := by
  cases same with
  | completed | unfinished => rfl
  | error _ line => rw [runtimeLine?, runtimeLine?, line]

theorem unfinished_iff :
    ending' = .stopped .unfinished ↔ ending = .stopped .unfinished := by
  cases same with
  | completed | unfinished => rfl
  | error => exact ⟨nofun, nofun⟩

theorem reports : ending'.reports = ending.reports := by
  cases same with
  | completed | unfinished => rfl
  | error cause line =>
      simp only [Ending.reports, RuntimeError.text, RuntimeError.message, cause, line]

end Ending.Resembles

structure Outcome.Resembles (outcome outcome' : Outcome) : Prop where
  printed : outcome'.printed = outcome.printed
  ending : outcome.ending.Resembles outcome'.ending

theorem Outcome.Resembles.trans {outcome outcome' outcome'' : Outcome}
    (first : outcome.Resembles outcome') (second : outcome'.Resembles outcome'') :
    outcome.Resembles outcome'' :=
  ⟨second.printed.trans first.printed, first.ending.trans second.ending⟩

namespace Lexical

theorem Session.run_of_clean (session : Session) (budget : Budget) {source : String}
    (clean : (Program.ofSource session.nextPlace source).Clean) :
    session.run budget source =
      conclude (session.nextPlace + (Program.ofSource session.nextPlace source).length)
        (runProgram budget (Program.ofSource session.nextPlace source).statements
          session.machine) :=
  if_pos ((Program.complaints_isEmpty_iff _).mpr clean)

namespace Respelled

variable {respelling : Respelling}

namespace Holds

variable {machine machine' : Machine}

theorem takePrinted (holds : Holds respelling machine machine') :
    machine'.takePrinted.1 = machine.takePrinted.1 ∧
      Holds respelling machine.takePrinted.2 machine'.takePrinted.2 :=
  ⟨congrArg Array.toList holds.printed, { holds with printed := rfl }⟩

theorem globalTexts (holds : Holds respelling machine machine') :
    machine.globalTexts = machine'.globalTexts :=
  holds.globals.map_sorted _ _ fun _ _ values => Values.text values

end Holds

theorem holds_initial (clock : Clock) : Holds respelling (.initial clock) (.initial clock) := by
  have bare : Holds respelling (.bare clock) (.bare clock) := {
    cells := fun _ => .none
    cellCount := rfl
    globals := .empty
    objects := fun _ => .none
    objectCount := rfl
    printed := rfl
    identities := rfl
    clock := rfl }
  have total : Native.IsTotal ⟨0, 0, .clock⟩ := trivial
  exact {
    bare with
    globals := Bindings.Related.bind .empty "clock" (.native total)
    identities := rfl }

/-! ## Single runs -/

theorem resembles_conclude {result result' : EStateM.Result Stop Machine Unit}
    (outcomes : IsDefective result ∨
      (comparison respelling).Ends () (fun _ _ _ => True) result result')
    (place place' : Nat)
    (sound : ∀ defect, (Session.conclude place result).2.ending ≠ .stopped (.defect defect)) :
    (Session.conclude place result).2.Resembles (Session.conclude place' result').2 ∧
      Holds respelling (Session.conclude place result).1.machine
        (Session.conclude place' result').1.machine := by
  cases outcomes with
  | inl defective =>
      cases defective with
      | defect defect machine => exact absurd rfl (sound defect)
  | inr ends =>
      cases ends with
      | ok _ holds _ =>
          obtain ⟨printed, holds⟩ := Holds.takePrinted holds
          exact ⟨⟨printed, .completed⟩, holds⟩
      | error _ holds stops =>
          obtain ⟨printed, holds⟩ := Holds.takePrinted holds
          refine ⟨⟨printed, ?_⟩, holds⟩
          cases stops with
          | error line cause => exact .error rfl line
          | unfinished => exact .unfinished
          | defect _ defect => exact absurd rfl (sound defect)

section Runs

variable {session session' : Session} {sight : Sight} {move : Occurrence → Occurrence}
  {source source' : String}

theorem resembles_run (holds : Holds respelling session.machine session'.machine)
    (clean : (Program.ofSource session.nextPlace source).Clean)
    (clean' : (Program.ofSource session'.nextPlace source').Clean)
    (statements : (Program.ofSource session'.nextPlace source').statements =
      Stmt.mapAll move (Program.ofSource session.nextPlace source).statements)
    (lines : ∀ word, (move word).line = word.line)
    (outside : sight = .apart ∨ sight = .outside)
    (fits : Stmt.FitsAll respelling move sight
      (Program.ofSource session.nextPlace source).statements) (budget : Budget)
    (sound : ∀ defect,
      (session.run budget source).2.ending ≠ .stopped (.defect defect)) :
    (session.run budget source).2.Resembles (session'.run budget source').2 ∧
      Holds respelling (session.run budget source).1.machine
        (session'.run budget source').1.machine := by
  rw [session.run_of_clean budget clean] at sound ⊢
  rw [session'.run_of_clean budget clean', statements]
  exact resembles_conclude
    (shadows_runProgram budget lines outside _ fits _ _ holds) _ _ sound

theorem holds_run {session : LoxLang.Session} {lexical : Session}
    (agrees : Session.Agrees session lexical)
    (holds : Holds respelling lexical.machine lexical.machine) (budget : Budget)
    (source : String) : Holds respelling (lexical.run budget source).1.machine
      (lexical.run budget source).1.machine := by
  by_cases clean : (Program.ofSource lexical.nextPlace source).Clean
  · -- The program is compared to itself, with no word moved.
    have same : SameWords id := ⟨fun _ => rfl, fun _ => rfl, fun _ => rfl⟩
    obtain ⟨_, statements⟩ := clean.move same clean.lexical (List.map_id _)
    obtain ⟨outcome, sound⟩ := (agrees.run budget source).1
    rw [outcome] at sound
    exact (resembles_run holds clean clean statements (fun _ => rfl) (.inl rfl)
      (Stmt.fitsAll_apart same _) budget sound).2
  · rw [← Program.complaints_isEmpty_iff] at clean
    rw [Session.run, if_neg clean]
    exact holds

theorem holds_after (clock : Clock) (history : List (Budget × String)) :
    Holds respelling ((Session.start clock).after history).machine
      ((Session.start clock).after history).machine := by
  suffices every : ∀ {session : LoxLang.Session} {lexical : Session},
      Session.Agrees session lexical → Holds respelling lexical.machine lexical.machine →
        Holds respelling (lexical.after history).machine (lexical.after history).machine from
    every (Session.agrees_start clock) (holds_initial clock)
  induction history with
  | nil => exact fun _ holds => holds
  | cons text later induction =>
      intro session lexical agrees holds
      exact induction (agrees.run text.1 text.2).2 (holds_run agrees holds text.1 text.2)

end Runs

/-- A session on which nothing is renamed does the same with a renamed text. The text is
first counted from the start, as if it were the only one that the session has read. -/
theorem resembles_renamed {source name : String} {declaration : Occurrence}
    (renamable : Renamable source declaration name) {lexical : Session}
    (holds : Holds renamable.respelling lexical.machine lexical.machine) (budget : Budget)
    (sound : ∀ defect, (lexical.run budget source).2.ending ≠ .stopped (.defect defect)) :
    (lexical.run budget source).2.Resembles
        (lexical.run budget (renameLocal declaration name source)).2 ∧
      (lexical.run budget (renameLocal declaration name source)).1.machine.globalTexts =
        (lexical.run budget source).1.machine.globalTexts := by
  have clean := renamable.clean.clean
  have recounted : SameWords (Occurrence.recount lexical.nextPlace 0) :=
    Occurrence.sameWords_recount _ _
  obtain ⟨alike, machines⟩ := @resembles_run _ lexical ⟨lexical.machine, 0⟩ _ _ _ _ holds
    (clean lexical.nextPlace) (clean 0) ((clean lexical.nextPlace).recounted 0)
    (fun _ => rfl) (.inl rfl) (Stmt.fitsAll_apart recounted _) budget sound
  obtain ⟨alike', machines'⟩ := @resembles_run _ ⟨lexical.machine, 0⟩ lexical _ _ _ _ holds
    (clean 0) (renamable.renamedClean lexical.nextPlace)
    (renamable.statements lexical.nextPlace) (Occurrence.line_renamed _ _) (.inr rfl)
    (renamable.fitsAll fun _ => rfl) budget alike.ending.sound
  exact ⟨alike.trans alike', (machines.globalTexts.trans machines'.globalTexts).symm⟩

end Respelled

end Lexical

namespace Session

theorem hadError_run_of_clean {session : Session} {source : String}
    (clean : (Program.ofSource session.nextPlace source).Clean) (budget : Budget) :
    (session.run budget source).1.hadError = session.hadError ∧
      (session.run budget source).1.hadRuntimeError =
        (session.hadRuntimeError || !(session.run budget source).2.ending.isCompleted) := by
  rw [session.run_of_clean budget source clean]
  cases Action.runProgram budget _ _ with
  | ok => exact ⟨rfl, (Bool.or_false _).symm⟩
  | error => exact ⟨rfl, (Bool.or_true _).symm⟩

end Session

open Lexical.Respelled

/-- Renaming is harmless. A local variable or parameter of a text without complaints gets a
name that is no word of the text, at its declaration and at exactly the references that are
bound to it. Then there are no complaints about the text either, and its references have
the same distances. Whatever a session has run before, both texts print the same, have the
same result, stop with the same message on the same line if they stop, and leave the same
global names with the same texts of their values behind. -/
theorem renaming_is_harmless {source name : String} {declaration : Occurrence}
    (renamable : Renamable source declaration name) :
    let renamed := renameLocal declaration name source
    let program := Program.ofSource 0 source
    let move := Occurrence.renamed (program.isOf declaration) name
    Token.placedFrom 0 (Listing.ofSource renamed).tokens =
        (Token.placedFrom 0 (Listing.ofSource source).tokens).map move ∧
      (∀ entry ∈ program.roles, (move entry.1).lexeme =
        if entry.2.isOf declaration.place entry.1 then name else entry.1.lexeme) ∧
      IsClean renamed ∧
      (∀ place (distances : Distances),
        distances.recordAll (Program.ofSource place renamed).findings =
          distances.recordAll (Program.ofSource place source).findings) ∧
      ∀ (clock : Clock) (history : List (Budget × String)) (budget : Budget),
        let session := (Session.start clock).after history
        let run := session.run budget source
        let run' := session.run budget renamed
        Session.SameRuns run run' ∧
          run'.2.ending.runtimeLine? = run.2.ending.runtimeLine? ∧
            run'.2.errors = run.2.errors := by
  intro renamed program move
  refine ⟨renamable.tokens, ?names, ?clean, renamable.recordAll_findings, ?runs⟩
  case names =>
    intro entry member
    exact (renamable.suitAll (fun _ => rfl) entry member).spelling
  case clean =>
    rw [IsClean, ← List.isEmpty_iff, Program.complaints_isEmpty_iff]
    exact renamable.renamedClean 0
  case runs =>
    intro clock history budget session run run'
    -- By lexical scope the runs can be compared without any distances, and the first of them
    -- comes upon no defect.
    have agrees := Lexical.Session.agrees_after clock history
    obtain ⟨⟨same, sound⟩, _, _, machines, _⟩ := agrees.run budget source
    obtain ⟨⟨same', _⟩, _, _, machines', _⟩ := agrees.run budget renamed
    rw [same] at sound
    obtain ⟨alike, texts⟩ :=
      resembles_renamed renamable (holds_after clock history) budget sound
    rw [← same, ← same'] at alike
    rw [← Lexical.World.Holds.globalTexts machines,
      ← Lexical.World.Holds.globalTexts machines'] at texts
    obtain ⟨hadError, hadRuntimeError⟩ :=
      Session.hadError_run_of_clean (renamable.clean.clean session.nextPlace) budget
    obtain ⟨hadError', hadRuntimeError'⟩ :=
      Session.hadError_run_of_clean (renamable.renamedClean session.nextPlace) budget
    have runs : Session.SameRuns run run' := {
      isCompleted := alike.ending.isCompleted
      output := congrArg textOfLines alike.printed
      globalTexts := texts
      runtimeMessage := alike.ending.runtimeMessage
      unfinished := alike.ending.unfinished_iff
      hadError := hadError'.trans hadError.symm
      hadRuntimeError := by
        rw [hadRuntimeError, hadRuntimeError', alike.ending.isCompleted] }
    exact ⟨runs, alike.ending.runtimeLine, congrArg textOfLines alike.ending.reports⟩

theorem renamable_hidden : Renamable "\x7b var a; \x7b var a = nil; \x7d\n-a; \x7d"
    ⟨.identifier "a" 1, 2⟩ "b" where
  clean := by
    rw [IsClean]
    cbv
  isLocal := by
    have first : (Program.ofSource 0 "\x7b var a; \x7b var a = nil; \x7d\n-a; \x7d").roles[0]? =
        some (⟨.identifier "a" 1, 2⟩, .declares) := by cbv
    exact List.mem_of_getElem? first
  identifier := by
    apply Lexeme.identifier (by decide) (List.forall_mem_nil _)
    intro word
    cases word <;> decide
  fresh := by
    have lexemes :
        (wordsOfSource "\x7b var a; \x7b var a = nil; \x7d\n-a; \x7d").map (·.lexeme) =
          ["\x7b", "var", "a", ";", "\x7b", "var", "a", "=", "nil", ";", "\x7d", "-", "a",
            ";", "\x7d"] := by cbv
    intro word member same
    have known := List.mem_map.mpr ⟨word, member, same⟩
    rw [lexemes] at known
    exact absurd known (by decide)

/-- The outer variable is renamed, but not the one that hides it in a block. -/
theorem renaming_is_harmless_hidden :
    Renamable "\x7b var a; \x7b var a = nil; \x7d\n-a; \x7d" ⟨.identifier "a" 1, 2⟩ "b" ∧
      renameLocal ⟨.identifier "a" 1, 2⟩ "b"
          "\x7b var a; \x7b var a = nil; \x7d\n-a; \x7d" =
        "\x7b var b; \x7b var a = nil; \x7d\n-b; \x7d" ∧
      ((Session.start 0).run ⟨1, 1⟩ "\x7b var b; \x7b var a = nil; \x7d\n-b; \x7d").2.errors =
        "Operand must be a number.\n[line 2]\n" := by
  have roles : (Program.ofSource 0 "\x7b var a; \x7b var a = nil; \x7d\n-a; \x7d").roles =
      [(⟨.identifier "a" 1, 2⟩, .declares), (⟨.identifier "a" 1, 6⟩, .declares),
        (⟨.identifier "a" 2, 12⟩, .refers (some ⟨.identifier "a" 1, 2⟩))] := by cbv
  have chosen : (Program.ofSource 0 "\x7b var a; \x7b var a = nil; \x7d\n-a; \x7d").isOf
      ⟨.identifier "a" 1, 2⟩ = fun place => 2 = place || 12 = place := by
    funext place
    simp [Program.isOf, roles, Role.isOf]
  have spelling : renameLocal ⟨.identifier "a" 1, 2⟩ "b"
      "\x7b var a; \x7b var a = nil; \x7d\n-a; \x7d" =
      "\x7b var b; \x7b var a = nil; \x7d\n-b; \x7d" := by
    rw [renameLocal, chosen]
    cbv
  have stopped :
      ((Session.start 0).run ⟨1, 1⟩ "\x7b var a; \x7b var a = nil; \x7d\n-a; \x7d").2 =
      ⟨.stopped (.error ⟨⟨⟨.symbol .minus, "-", .nil, 2⟩, 11⟩, .operands .numberNeeded⟩),
        []⟩ := by cbv
  obtain ⟨-, -, -, -, runs⟩ := renaming_is_harmless renamable_hidden
  have errors := (runs 0 [] ⟨1, 1⟩).2.2
  rw [spelling] at errors
  refine ⟨renamable_hidden, spelling, errors.trans ?_⟩
  change Outcome.errors ((Session.start 0).run ⟨1, 1⟩ _).2 = _
  rw [stopped]
  rfl

end LoxLang
