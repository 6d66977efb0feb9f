import LoxLang.CommandLine

/-!
# The program

Reads the script or the lines, and shows what they come to.
-/

namespace LoxLang.CommandLine

partial def promptLoop (session : Session) : IO UInt32 := do
  let output ← IO.getStdout
  output.putStr promptText
  output.flush
  let typed ← (← IO.getStdin).getLine
  if typed.isEmpty then
    output.putStr "\n"
    return 0
  let lines := Text.lines (Text.unifyNewlines typed.toList)
  let mut session := session
  for line in lines do
    let (next, outcome) := runLine Budget.standard session line
    output.putStr outcome.output
    (← IO.getStderr).putStr outcome.errors
    session := next
  promptLoop session

def scriptMain (session : Session) (name : String) : IO UInt32 := do
  match runScript Budget.standard session (← IO.FS.readBinFile name) with
  | .ok transcript =>
    (← IO.getStdout).putStr transcript.output
    (← IO.getStderr).putStr transcript.errors
    return UInt32.ofNat transcript.exitCode
  | .error _ => throw (IO.userError s!"{name} is no text in UTF-8")

end LoxLang.CommandLine

open LoxLang LoxLang.CommandLine in
def main (arguments : List String) : IO UInt32 := do
  let session := Session.start (.startingAt (Float.ofNat (← IO.monoMsNow) / 1000))
  match Invocation.ofArguments arguments with
  | .usage =>
    (← IO.getStdout).putStr usageText
    return 64
  | .prompt => promptLoop session
  | .script name => scriptMain session name
