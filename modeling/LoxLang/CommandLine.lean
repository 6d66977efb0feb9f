import LoxLang.Session.Basic
import LoxLang.Text.Lines

/-!
# The command line

Given the name of a script, the program runs it and exits; given no name, it prompts for
one line after another. Files and lines are text in UTF-8 with line endings of any kind.
-/

namespace LoxLang.CommandLine

inductive Invocation where
  | script (name : String)
  | prompt
  | usage
  deriving DecidableEq, Repr

def isNegativeNumber (argument : List Char) : Bool :=
  match argument with
  | '-' :: number =>
    let whole := number.takeWhile Char.isDigit
    match number.dropWhile Char.isDigit with
    | [] => !whole.isEmpty
    | '.' :: fraction => !fraction.isEmpty && fraction.all Char.isDigit
    | _ => false
  | _ => false

/-- Whether an argument asks for an option. A minus sign alone does not, nor does a
negative number or an argument with a blank in it. -/
def isOption (argument : String) : Bool :=
  match argument.toList with
  | '-' :: rest =>
    !rest.isEmpty && !isNegativeNumber ('-' :: rest) && !rest.contains ' '
  | _ => false

/-- The names among the arguments, unless there is an option among them. Behind the first
`--` all arguments are names. -/
def names? : List String → Option (List String)
  | [] => some []
  | argument :: rest =>
    if argument = "--" then some rest
    else if isOption argument then none
    else (names? rest).map (argument :: ·)

def Invocation.ofArguments (arguments : List String) : Invocation :=
  match names? arguments with
  | some [] => .prompt
  | some [name] => .script name
  | _ => .usage

def usageText : String := "Usage: pylox [script]\n"

inductive FileFault where
  | missing
  | notUtf8
  deriving DecidableEq, Repr

structure Transcript where
  exitCode : Nat
  output : String
  errors : String
  deriving DecidableEq, Repr

def usage : Transcript := ⟨64, usageText, ""⟩

def sourceOfBytes (bytes : ByteArray) : Except FileFault String :=
  match String.fromUTF8? bytes with
  | some text => .ok (String.ofList (Text.unifyNewlines text.toList))
  | none => .error .notUtf8

/-- The exit code tells whether the script had to be mended or went wrong while it ran. -/
def exitCode (session : Session) : Nat :=
  if session.hadError then 65 else if session.hadRuntimeError then 70 else 0

def runScript (budget : Budget) (session : Session) (bytes : ByteArray) :
    Except FileFault Transcript := do
  let source ← sourceOfBytes bytes
  let (session, outcome) := session.run budget source
  pure ⟨exitCode session, outcome.output, outcome.errors⟩

def promptText : String := "> "

/-- Runs one line typed at the prompt. Its errors do not concern later lines. -/
def runLine (budget : Budget) (session : Session) (line : List Char) :
    Session × Outcome :=
  let (session, outcome) := session.run budget (String.ofList line)
  (session.reset, outcome)

def runLines (budget : Budget) (session : Session) (transcript : Transcript) :
    List (List Char) → Transcript
  | [] => { transcript with output := transcript.output ++ promptText ++ "\n" }
  | line :: rest =>
    let (session, outcome) := runLine budget session line
    runLines budget session
      ⟨transcript.exitCode, transcript.output ++ promptText ++ outcome.output,
        transcript.errors ++ outcome.errors⟩ rest

def runPrompt (budget : Budget) (session : Session) (input : String) : Transcript :=
  runLines budget session ⟨0, "", ""⟩ (Text.lines (Text.unifyNewlines input.toList))

/-- One use of the command line, where `file?` gives the contents of a file by name. -/
def run (budget : Budget) (session : Session) (file? : String → Option ByteArray)
    (input : String) (arguments : List String) : Except FileFault Transcript :=
  match Invocation.ofArguments arguments with
  | .usage => .ok usage
  | .prompt => .ok (runPrompt budget session input)
  | .script name =>
    match file? name with
    | some bytes => runScript budget session bytes
    | none => .error .missing

end LoxLang.CommandLine
