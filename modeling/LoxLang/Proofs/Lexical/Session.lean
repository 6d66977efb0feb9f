import LoxLang.Proofs.Lexical.Evaluation
import LoxLang.Session.Basic

/-! # Sessions by lexical scope

A session on the machine with cells. Which texts are run is decided as in any session, and
nothing is remembered about references: a name is looked up in a view, or among the
globals, when it is used.
-/

namespace LoxLang.Lexical

def runProgram (budget : Budget) : List Stmt → Action Unit
  | [] => pure ()
  | statement :: rest => do
    let _ ← execute (callWithin budget.rounds budget.depth) budget.rounds .topLevel
      statement
    runProgram budget rest

def defineNative (name : String) (arity : Nat) (answer : NativeAnswer) : Action Unit := do
  let identity ← newIdentity
  defineGlobal name (.native ⟨identity, arity, answer⟩)

def Machine.initial (clock : Clock) : Machine :=
  match defineNative "clock" 0 .clock (bare clock) with
  | .ok _ machine => machine
  | .error _ machine => machine

structure Session where
  machine : Machine
  nextPlace : Nat

namespace Session

def start (clock : Clock) : Session := ⟨Machine.initial clock, 0⟩

def conclude (nextPlace : Nat) : EStateM.Result Stop Machine Unit → Session × Outcome
  | .ok _ machine =>
    (⟨machine.takePrinted.2, nextPlace⟩, ⟨.completed, machine.takePrinted.1⟩)
  | .error stop machine =>
    (⟨machine.takePrinted.2, nextPlace⟩, ⟨.stopped stop, machine.takePrinted.1⟩)

def run (budget : Budget) (session : Session) (source : String) : Session × Outcome :=
  let program := Program.ofSource session.nextPlace source
  let nextPlace := session.nextPlace + program.length
  if program.complaints.isEmpty then
    conclude nextPlace (runProgram budget program.statements session.machine)
  else
    ({ session with nextPlace }, ⟨.rejected program.complaints, []⟩)

def after (session : Session) (history : List (Budget × String)) : Session :=
  history.foldl (fun session (budget, source) => (session.run budget source).1) session

end Session

end LoxLang.Lexical
