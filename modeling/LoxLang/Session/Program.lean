import LoxLang.Binding.Finding
import LoxLang.Reading.Statement

/-!
# Programs from source texts

A source text becomes a program in three steps: it is cut into tokens, the tokens are read
as declarations, and the references are bound. The faults of the first two steps are
reported together; binding is worth reporting only for a text without such faults.
-/

namespace LoxLang

structure Program where
  statements : List Stmt
  lexicalFaults : List LexicalFault
  readingFaults : List ReadingFault
  /-- How many places the tokens of the text take up. -/
  length : Nat

namespace Program

/-- The program in a source text whose first token takes the given place. The token
listing of a text always has an end, so it can always be read. -/
def ofSource (firstPlace : Nat) (source : String) : Program :=
  let listing := Listing.ofSource source
  let parsed :=
    (Parsed.ofTokens? (Token.placedFrom firstPlace listing.tokens)).getD ⟨[], []⟩
  ⟨parsed.statements, listing.faults, parsed.faults, listing.tokens.length - 1⟩

def diagnostics (program : Program) : List Diagnostic :=
  Diagnostic.byLine
    (program.lexicalFaults.map LexicalFault.diagnostic ++
      program.readingFaults.map ReadingFault.diagnostic)

def findings (program : Program) : List Finding := findingsOfProgram program.statements

def bindingDiagnostics (program : Program) : List Diagnostic :=
  Diagnostic.byLine ((Finding.faults program.findings).map BindingFault.diagnostic)

/-- Everything that has to be mended before the program can run. -/
def complaints (program : Program) : List Diagnostic :=
  if program.diagnostics.isEmpty then program.bindingDiagnostics else program.diagnostics

end Program

end LoxLang
