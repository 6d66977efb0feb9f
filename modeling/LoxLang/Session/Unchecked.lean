import LoxLang.Session.Basic

/-!
# Working on the machine of a session without checks

The parts of a session can also be used one by one: programs are run whatever complaints
there are about them, blocks are run on their own, and functions are called from outside.
A program that was not checked may stop with a defect.
-/

namespace LoxLang

namespace Session

def runUnchecked (budget : Budget) (session : Session) (source : String) :
    Session × Except Stop Unit × List String :=
  let program := Program.ofSource session.nextPlace source
  (session.accept program).perform (Action.runProgram budget program.statements)

def statementsOfBlock : List Stmt → List Stmt
  | .block statements :: _ => statements
  | _ => []

/-- Runs the block that a source text starts with, in a new frame inside the global
one. -/
def runBlock (budget : Budget) (session : Session) (source : String) :
    Session × Except Stop Completion × List String :=
  let program := Program.ofSource session.nextPlace source
  (session.accept program).perform do
    let frame ← Action.newFrame Machine.globals
    Action.within frame (budget.runner (statementsOfBlock program.statements))

def defineNative (session : Session) (name : String) (arity : Nat)
    (answer : NativeAnswer) : Session × Except Stop Unit × List String :=
  session.perform (Action.defineNative name arity answer)

/-- Calls the value of a global name, however many arguments it is given, and tells the
number it should be given. -/
def callGlobal (budget : Budget) (session : Session) (name : String)
    (arguments : List Value) : Session × Except Stop (Value × Nat) × List String :=
  session.perform do
    let callee ← Action.valueIn Machine.globals name
    let value ← Action.callValue budget.runner callee arguments
    pure (value, callee.arity?.getD 0)

end Session

end LoxLang
