import LoxLang.Proofs.Lexical.Agreement
import LoxLang.Proofs.Loops.Desugaring

/-! # Sessions with loops as they are written

A session that executes loops as they are written, in programs and in the bodies of all
routines, does what the machine with frames does with the trees that are read.
-/

namespace LoxLang.Lexical

open Comparison Grammar

/-- A way to see the statements of a tree as they are written. Any tree of a loop may be
seen as that loop. -/
structure Reading where
  read : List Stmt → List Written
  desugarAll_read : ∀ statements, Written.desugarAll (read statements) = statements
  properAll_read : ∀ statements, Written.ProperAll (read statements)

namespace Written

mutual

def ofStmt : Stmt → Written
  | .block statements => block (ofAll statements)
  | .classDecl name superclass methods => classDecl name superclass methods
  | .expression inner => expression inner
  | .function routine => function routine
  | .ifThen condition thenBranch none => ifThen condition (ofStmt thenBranch) none
  | .ifThen condition thenBranch (some elseBranch) =>
    ifThen condition (ofStmt thenBranch) (some (ofStmt elseBranch))
  | .print inner => print inner
  | .returns keyword value => returns keyword value
  | .var name initializer => var name initializer
  | .whileLoop condition body => whileLoop condition (ofStmt body)

def ofAll : List Stmt → List Written
  | [] => []
  | statement :: rest => ofStmt statement :: ofAll rest

end

mutual

theorem desugar_ofStmt : ∀ statement : Stmt,
    (ofStmt statement).desugar = statement ∧ (ofStmt statement).Proper
  | .block statements => by
      simpa [ofStmt, desugar, Proper] using desugarAll_ofAll statements
  | .ifThen _ thenBranch none => by
      simpa [ofStmt, desugar, Proper] using desugar_ofStmt thenBranch
  | .ifThen _ thenBranch (some elseBranch) => by
      have thenSame := desugar_ofStmt thenBranch
      have elseSame := desugar_ofStmt elseBranch
      simp [ofStmt, desugar, Proper, thenSame, elseSame]
  | .whileLoop _ body => by
      simpa [ofStmt, desugar, Proper] using desugar_ofStmt body
  | .classDecl _ _ _ | .expression _ | .function _ | .print _ | .returns _ _ | .var _ _ => by
      simp [ofStmt, desugar, Proper]

theorem desugarAll_ofAll : ∀ statements : List Stmt,
    desugarAll (ofAll statements) = statements ∧ ProperAll (ofAll statements)
  | [] => by simp [ofAll, desugarAll, ProperAll]
  | statement :: rest => by
      have first := desugar_ofStmt statement
      have others := desugarAll_ofAll rest
      simp [ofAll, desugarAll, ProperAll, first, others]

end

end Written

namespace Reading

open Classical in
theorem exists_read {statements : List Written} (proper : Written.ProperAll statements) :
    ∃ reading : Reading, reading.read (Written.desugarAll statements) = statements := by
  refine ⟨⟨fun trees => if trees = Written.desugarAll statements then statements
    else Written.ofAll trees, fun trees => ?_, fun trees => ?_⟩, if_pos rfl⟩
  · split
    case isTrue same => exact same.symm
    case isFalse => exact (Written.desugarAll_ofAll trees).1
  · split
    case isTrue => exact proper
    case isFalse => exact (Written.desugarAll_ofAll trees).2

def callWithin (reading : Reading) (rounds : Nat) : Nat → Caller
  | 0, paren, callee, arguments => do
    Action.checkCall paren callee arguments
    Action.fail paren .stackOverflow
  | depth + 1, paren, callee, arguments => do
    Action.checkCall paren callee arguments
    callValue (fun view body =>
      Written.executeAll (reading.callWithin rounds depth) rounds view (reading.read body))
      callee arguments

def runProgram (reading : Reading) (budget : Budget) : List Written → Action Unit
  | [] => pure ()
  | statement :: rest => do
    let _ ← statement.execute (reading.callWithin budget.rounds budget.depth) budget.rounds
      .topLevel
    runProgram reading budget rest

variable (reading : Reading)

theorem callWithin_eq (rounds : Nat) :
    ∀ depth, reading.callWithin rounds depth = Lexical.callWithin rounds depth
  | 0 => rfl
  | depth + 1 => by
      have bodies : (fun view body => Written.executeAll (Lexical.callWithin rounds depth)
          rounds view (reading.read body)) =
            executeAll (Lexical.callWithin rounds depth) rounds := by
        funext view body
        rw [← Written.executeAll_desugarAll view _ (reading.properAll_read body),
          reading.desugarAll_read]
      funext paren callee arguments
      rw [callWithin, Lexical.callWithin, callWithin_eq rounds depth, bodies]

theorem runProgram_eq (budget : Budget) {statements : List Written}
    (proper : Written.ProperAll statements) :
    reading.runProgram budget statements =
      Lexical.runProgram budget (Written.desugarAll statements) := by
  induction statements with
  | nil => rfl
  | cons statement rest induction =>
      rw [runProgram, Written.desugarAll, Lexical.runProgram, callWithin_eq,
        Written.execute_desugar _ statement proper.1, induction proper.2]

end Reading

namespace Session

/-- Runs one source text as it is written, unless there are complaints about it. -/
def runWritten (reading : Reading) (budget : Budget) (session : Session)
    (source : String) : Session × Outcome :=
  let program := Program.ofSource session.nextPlace source
  let nextPlace := session.nextPlace + program.length
  if program.complaints.isEmpty then
    conclude nextPlace
      (reading.runProgram budget (reading.read program.statements) session.machine)
  else
    ({ session with nextPlace }, ⟨.rejected program.complaints, []⟩)

def afterWritten (reading : Reading) (session : Session)
    (history : List (Budget × String)) : Session :=
  history.foldl (fun session (budget, source) =>
    (session.runWritten reading budget source).1) session

theorem runWritten_eq (reading : Reading) (budget : Budget) (session : Session)
    (source : String) : session.runWritten reading budget source = session.run budget source := by
  rw [runWritten, run, reading.runProgram_eq budget (reading.properAll_read _),
    reading.desugarAll_read]

theorem afterWritten_eq (reading : Reading) (session : Session)
    (history : List (Budget × String)) :
    session.afterWritten reading history = session.after history := by
  simp only [afterWritten, after, runWritten_eq]

/-- Loops mean what their clauses say. However the loops in programs and in the bodies of
routines are seen, sessions that execute them as they are written have the outcomes of the
machine with frames and leave the same global names behind. And in all states that
correspond, the tree that is read for a loop ends as the loop does: with corresponding
states, and returning corresponding values or not at all, or stopped for the same reason.
The variable that a loop declares has one cell, which is in the one view of its clauses and
of its body in every round. -/
theorem loops_follow_their_clauses (reading : Reading) :
    (∀ (clock : Clock) (history : List (Budget × String)) (budget : Budget)
        (source : String),
      let session := (LoxLang.Session.start clock).after history
      let written := (start clock).afterWritten reading history
      (session.run budget source).2 = (written.runWritten reading budget source).2 ∧
        (session.run budget source).1.machine.globalTexts =
          (written.runWritten reading budget source).1.machine.globalTexts) ∧
    (∀ {rule : ElseRule} {isOpen : Bool} {initializerTokens bodyTokens : List Occurrence}
      {initializer : Option Stmt} {condition increment : Option Expr} {body : Written}
      {world : World} {scopes : Scopes} {frame : FrameId} {view : View} (budget : Budget),
      ForInitializer initializerTokens initializer →
      Statement rule (.statement isOpen) bodyTokens body.desugar → body.Proper →
      (Stmt.forLoop initializer condition increment body.desugar).Settled world.settlement
        scopes →
      Aligned world scopes frame view → Exact world scopes frame →
      ∃ start : LoopStart, start.statement? = initializer ∧
        (comparison frame (some frame)).Follows world
          ((Stmt.forLoop initializer condition increment body.desugar).execute budget.caller
            budget.rounds)
          ((Written.forLoop start condition increment body).execute
            (reading.callWithin budget.rounds budget.depth) budget.rounds view)
          (Behind scopes frame)) ∧
    ∀ {call : Caller} {view inner : View} {name : Occurrence} {initializer : Option Expr}
      {machine later : Machine},
      enterLoop call view (.declares name initializer) machine = .ok inner later →
        inner = view.extend name.lexeme machine.cells.size := by
  refine ⟨?_, ?_, enterLoop_declares⟩
  · intro clock history budget source session written
    rcases (agrees_after clock history).run budget source with ⟨outcome, _, world, holds, _⟩
    rw [runWritten_eq, show written = (start clock).after history from afterWritten_eq ..]
    exact ⟨outcome.same, World.Holds.globalTexts holds⟩
  · intro rule isOpen initializerTokens bodyTokens initializer condition increment body world
      scopes frame view budget initializerPhrase bodyPhrase proper settled aligned exact_
    rcases exists_loopStart initializerPhrase with ⟨start, rfl⟩
    refine ⟨start, rfl, ?_⟩
    have quiet : Quiet body.desugar := quiet_of_statement bodyPhrase
    have follows := @execute_follows _ _ budget.rounds
      (callWithin_follows budget.rounds budget.depth) world frame scopes view aligned exact_ _
      settled
    rw [scopesAfter_of_undeclared (by cases start <;> rfl)] at follows
    rw [reading.callWithin_eq, ← Written.execute_desugar view
      (.forLoop start condition increment body) ⟨quiet, proper⟩]
    exact follows

theorem settledAll_first {source : String} {statements : List Stmt}
    (clean : (Program.ofSource 0 source).Clean)
    (found : (Program.ofSource 0 source).statements = statements) :
    Stmt.SettledAll (World.initial.settlement.after (.ofSource 0 source)) [] statements := by
  have fresh : World.initial.settlement.Fresh := fun _ _ => by
    simp [World.initial, Distances.get?, Distances.empty]
  exact found ▸ Settlement.settledAll_after fresh clean

def variableLoopBody : Written :=
  .block [.print (.variable ⟨.identifier "i" 1, 14⟩)]

def variableLoop : Written :=
  .forLoop (.declares ⟨.identifier "i" 1, 3⟩ none)
    (some (.unary .not ⟨⟨Symbol.bang, "!", .nil, 1⟩, 5⟩ (.variable ⟨.identifier "i" 1, 6⟩)))
    (some (.assign ⟨.identifier "i" 1, 8⟩ (.literal (.bool true)))) variableLoopBody

def variableLoopText : String := "for (var i; !i; i = true) \x7b print i; \x7d"

theorem forInitializer_variable :
    ∃ tokens, ForInitializer tokens (some (.var ⟨.identifier "i" 1, 3⟩ none)) := by
  let semicolon : Occurrence := ⟨⟨Symbol.semicolon, ";", .nil, 1⟩, 4⟩
  let varWord : Occurrence := ⟨⟨Keyword.varWord, "var", .nil, 1⟩, 2⟩
  have semicolonKind : semicolon.kind = Symbol.semicolon := rfl
  have varKind : varWord.kind = Keyword.varWord := rfl
  exact ⟨_, .declaration (.mk varKind rfl .absent semicolonKind)⟩

theorem statement_variableLoopBody :
    ∃ tokens, Statement .nearestIf (.statement false) tokens variableLoopBody.desugar := by
  let leftBrace : Occurrence := ⟨⟨Symbol.leftBrace, "\x7b", .nil, 1⟩, 12⟩
  let rightBrace : Occurrence := ⟨⟨Symbol.rightBrace, "\x7d", .nil, 1⟩, 16⟩
  let words : List Occurrence := Token.placedFrom 13
    [⟨Keyword.printWord, "print", .nil, 1⟩, .identifier "i" 1,
      ⟨Symbol.semicolon, ";", .nil, 1⟩]
  have leftKind : leftBrace.kind = Symbol.leftBrace := rfl
  have rightKind : rightBrace.kind = Symbol.rightBrace := rfl
  have parsed : Parsed.upTo ⟨.endOfInput 1, 16⟩ words =
      ⟨[.print (.variable ⟨.identifier "i" 1, 14⟩)], []⟩ := by cbv
  have printing : Statement .nearestIf .declarations words
      (Parsed.upTo ⟨.endOfInput 1, 16⟩ words).statements :=
    Parsed.derivable_of_upTo (by decide) rfl (by rw [parsed])
  rw [parsed] at printing
  exact ⟨_, .blockStatement (.block leftKind printing rightKind)⟩

/-- If its loop is seen as one, the whole text goes one round and comes to an end, and the
loop ends as its clauses say. -/
theorem loops_follow_their_clauses_variable :
    ∃ (reading : Reading) (world : World),
      reading.read (Program.ofSource 0 variableLoopText).statements = [variableLoop] ∧
      ((start 0).runWritten reading ⟨1, 2⟩ variableLoopText).2 = ⟨.completed, ["nil"]⟩ ∧
      (comparison LoxLang.Machine.globals (some LoxLang.Machine.globals)).Follows world
        (variableLoop.desugar.execute (Budget.caller ⟨1, 2⟩) 2)
        (variableLoop.execute (reading.callWithin 2 1) 2 .topLevel)
        (Behind [] LoxLang.Machine.globals) := by
  have clean : (Program.ofSource 0 variableLoopText).Clean := by
    rw [← Program.complaints_isEmpty_iff]
    cbv
  have statements : (Program.ofSource 0 variableLoopText).statements =
      Written.desugarAll [variableLoop] := by cbv
  have bodyProper : variableLoopBody.Proper := ⟨trivial, trivial⟩
  have proper : Written.ProperAll [variableLoop] := ⟨⟨.block _, bodyProper⟩, trivial⟩
  rcases Reading.exists_read proper with ⟨reading, read⟩
  have settled := settledAll_first clean statements
  have both := loops_follow_their_clauses reading
  generalize World.initial.settlement.after (.ofSource 0 variableLoopText) = settlement
    at settled
  refine ⟨reading, World.initial.settle settlement, by rw [statements, read], ?_, ?_⟩
  · refine (both.1 0 [] ⟨1, 2⟩ variableLoopText).1.symm.trans ?_
    cbv
  · rcases forInitializer_variable with ⟨_, initializer⟩
    rcases statement_variableLoopBody with ⟨_, body⟩
    have exact_ : Exact (World.initial.settle settlement) [] LoxLang.Machine.globals := by
      simp [Exact]
    rcases both.2.1 ⟨1, 2⟩ initializer body bodyProper settled.1 .topLevel exact_ with
      ⟨start, same, follows⟩
    cases start with
    | declares =>
        obtain ⟨rfl, rfl⟩ := Stmt.var.inj (Option.some.inj same)
        exact follows
    | nothing | evaluates => cases same

end Session

end LoxLang.Lexical
