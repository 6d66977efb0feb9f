import LoxLang.Machine.Calls
import LoxLang.Session.Program

/-!
# Sessions

A session runs one source text after another on one machine, so that later texts can use
what earlier ones declared. A text with complaints is not run at all. Whatever a run ends
with, the next text starts in the global frame.
-/

namespace LoxLang

namespace Distances

def recordFinding (distances : Distances) : Finding → Distances
  | .bound reference distance => distances.record reference.place distance
  | .fault _ => distances

def recordAll (distances : Distances) (findings : List Finding) : Distances :=
  findings.foldl recordFinding distances

end Distances

structure Session where
  machine : Machine
  nextPlace : Nat
  hadError : Bool
  hadRuntimeError : Bool

inductive Ending where
  | completed
  /-- The text was not run, because it has to be mended first. -/
  | rejected (complaints : List Diagnostic)
  | stopped (stop : Stop)

namespace Ending

def isCompleted : Ending → Bool
  | completed => true
  | _ => false

def reports : Ending → List String
  | completed => []
  | rejected complaints => complaints.map Diagnostic.text
  | stopped (.error error) => [error.text]
  | stopped _ => []

end Ending

structure Outcome where
  ending : Ending
  printed : List String

def textOfLines (lines : List String) : String :=
  lines.foldl (fun text line => text ++ line ++ "\n") ""

namespace Outcome

def output (outcome : Outcome) : String := textOfLines outcome.printed

def errors (outcome : Outcome) : String := textOfLines outcome.ending.reports

end Outcome

namespace Action

/-- Executes the statements of a program. A return at the top level ends its statement
only. -/
def runProgram (budget : Budget) : List Stmt → Action Unit
  | [] => pure ()
  | statement :: rest => do
    let _ ← statement.execute budget.caller budget.rounds
    runProgram budget rest

def defineNative (name : String) (arity : Nat) (answer : NativeAnswer) : Action Unit := do
  let identity ← newIdentity
  defineIn Machine.globals name (.native ⟨identity, arity, answer⟩)

end Action

namespace Machine

def initial (clock : Clock) : Machine :=
  match Action.defineNative "clock" 0 .clock (bare clock) with
  | .ok _ machine => machine
  | .error _ machine => machine

def takePrinted (machine : Machine) : List String × Machine :=
  (machine.printed.toList, { machine with printed := #[] })

def globalTexts (machine : Machine) : List (String × String) :=
  ((machine.frames.namesOf globals).sorted).map fun (name, value) => (name, value.text)

end Machine

namespace Session

def start (clock : Clock) : Session := ⟨Machine.initial clock, 0, false, false⟩

def reset (session : Session) : Session :=
  { session with hadError := false, hadRuntimeError := false }

/-- Does something on the machine and takes the lines printed meanwhile. -/
def perform (session : Session) (action : Action α) :
    Session × Except Stop α × List String :=
  match action session.machine with
  | .ok result machine =>
    let (printed, machine) := machine.takePrinted
    ({ session with machine }, .ok result, printed)
  | .error stop machine =>
    let (printed, machine) := machine.takePrinted
    ({ session with machine }, .error stop, printed)

def accept (session : Session) (program : Program) : Session :=
  { session with
    nextPlace := session.nextPlace + program.length
    machine := { session.machine with
      distances := session.machine.distances.recordAll program.findings } }

/-- Leaves the machine alone, but the places of the program are taken. -/
def reject (session : Session) (program : Program) : Session :=
  { session with nextPlace := session.nextPlace + program.length, hadError := true }

/-- Runs one source text, unless there are complaints about it. -/
def run (budget : Budget) (session : Session) (source : String) : Session × Outcome :=
  let program := Program.ofSource session.nextPlace source
  if program.complaints.isEmpty then
    let (session, result, printed) :=
      (session.accept program).perform (Action.runProgram budget program.statements)
    match result with
    | .ok _ => (session, ⟨.completed, printed⟩)
    | .error stop => ({ session with hadRuntimeError := true }, ⟨.stopped stop, printed⟩)
  else
    (session.reject program, ⟨.rejected program.complaints, []⟩)

end Session

end LoxLang
