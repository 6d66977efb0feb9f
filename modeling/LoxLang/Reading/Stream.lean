import LoxLang.Reading.Fault

/-!
# Reading a stream of tokens

A stream is a token list from the position on that reading has come to, with the faults
noticed so far. A reader looks at the first token and takes it. It either delivers
something or is interrupted; the faults and the tokens taken stay taken in both cases.
Nothing looks ahead for an end of input: reading never goes past one, and a stream without
one is noticed only where a token is asked for behind the last.
-/

namespace LoxLang

structure Stream where
  rest : List Occurrence
  faults : Array ReadingFault

/-- Why a reader delivers nothing. Only an abandoned declaration is recovered from. -/
inductive Interruption where
  | abandoned
  /-- A token was asked for behind the last one. -/
  | pastEnd
  | tooDeep
  deriving DecidableEq, Repr

abbrev Reader := EStateM Interruption Stream

namespace Reader

/-- The next token, which stays in the stream. -/
def next : Reader Occurrence := fun stream =>
  match stream.rest with
  | [] => .error .pastEnd stream
  | token :: _ => .ok token stream

def follows (kind : Kind) : Reader Bool := do
  pure (decide ((← next).kind = kind))

def atEnd : Reader Bool := follows .endOfInput

/-- Takes the next token, whatever it is. Only the end of input stays. -/
def skip : Reader Unit := do
  if (← next).kind ≠ .endOfInput then
    modify fun stream => { stream with rest := stream.rest.tail }

/-- Takes the next token if `choose` has a use for its kind. -/
def acceptAs (choose : Kind → Option α) : Reader (Option (α × Occurrence)) := do
  let token ← next
  match choose token.kind with
  | some use => do skip; pure (some (use, token))
  | none => pure none

def accept (kind : Kind) : Reader (Option Occurrence) := do
  let found ← acceptAs fun other => if other = kind then some () else none
  pure (found.map (·.2))

def complain (token : Occurrence) (cause : ReadingCause) : Reader Unit := fun stream =>
  .ok () { stream with faults := stream.faults.push ⟨token, cause⟩ }

def abandon : Reader α := throw .abandoned

def tooDeep : Reader α := throw .tooDeep

def missing (expectation : Expectation) : Reader α := do
  complain (← next) (.expected expectation)
  abandon

def expect (kind : Kind) (expectation : Expectation) : Reader Occurrence := do
  match ← accept kind with
  | some token => pure token
  | none => missing expectation

end Reader

def Kind.startsStatement : Kind → Bool
  | .keyword .classWord | .keyword .funWord | .keyword .varWord | .keyword .forWord
  | .keyword .ifWord | .keyword .whileWord | .keyword .printWord | .keyword .returnWord =>
    true
  | _ => false

/-- The tokens from which to go on after an abandoned declaration: at least one is
skipped, and then all up to just behind a semicolon or just before the start of a
statement. The end of input is not skipped. -/
def resumption : List Occurrence → List Occurrence
  | [] => []
  | skipped :: rest =>
    if skipped.kind = .endOfInput then skipped :: rest
    else if skipped.kind = Symbol.semicolon ||
      rest.head?.any (·.kind.startsStatement) then rest
    else resumption rest

namespace Reader

/-- Goes on where the next declaration may start, if the tokens do not run out before. -/
def resume : Reader Unit := do
  modify fun stream => { stream with rest := resumption stream.rest }
  let _ ← next

end Reader

end LoxLang
