import LoxLang.Proofs.Machine.Course
import LoxLang.Proofs.Returns.Agreement
import LoxLang.Proofs.Session.Program

/-! # Returns end activations

A return ends the activation of the routine it stands in at once: all that is still to be
done there is left undone, and the call delivers what was returned. It never ends more
than that. A program without complaints has no return outside of routines, so no statement
at its top level is ever ended by one.
-/

namespace LoxLang

namespace Action

variable {first : Action β} {next : β → Action α} {machine between : Machine} {result : β}

theorem bind_of_ok (done : first machine = .ok result between) :
    (first >>= next) machine = next result between := by
  simp only [Bind.bind, EStateM.bind, done]

theorem within_of_ok {frame : FrameId} {action : Action α} {result : α}
    (done : action { machine with current := frame } = .ok result between) :
    within frame action machine = .ok result { between with current := machine.current } := by
  simp only [within, done]

end Action

open LoxLang.Action

/-! ## Returns inside of activations -/

/-- The tasks that end with a completion: statements, one or several, and loops. -/
def Task.completes : Task → Bool
  | .statement _ | .statements _ | .loop _ _ _ => true
  | _ => false

namespace Execution

def Returns (rounds : Nat) (value : Value) (after : Machine) : Execution → Prop
  | ⟨depth, .statement statement, machine⟩ =>
    statement.execute (callWithin rounds depth) rounds machine = .ok (.returned value) after
  | ⟨depth, .statements statements, machine⟩ =>
    Stmt.executeAll (callWithin rounds depth) rounds statements machine =
      .ok (.returned value) after
  | ⟨depth, .loop condition body limit, machine⟩ =>
    repeatWhile (condition.test (callWithin rounds depth))
      (body.execute (callWithin rounds depth) rounds) limit machine =
        .ok (.returned value) after
  | _ => False

/-- The execution belongs to the activation of a routine: it is that of statements or of a
loop in the body, however deep in blocks, branches and loops, and not in a further call. -/
inductive BelongsTo (rounds : Nat) : Execution → Execution → Prop
  | body {depth : Nat} {closure : Closure} {arguments : List Value} {machine : Machine}
      {part : Execution} (executes : Executes rounds ⟨depth, .closure closure arguments,
        machine⟩ part) : BelongsTo rounds ⟨depth, .closure closure arguments, machine⟩ part
  | part {activation whole part : Execution} (belongs : BelongsTo rounds activation whole)
      (executes : Executes rounds whole part) (completes : part.task.completes) :
      BelongsTo rounds activation part

variable {rounds : Nat} {value : Value} {activation whole part : Execution} {after : Machine}

theorem BelongsTo.completes (belongs : BelongsTo rounds activation part) :
    part.task.completes := by
  cases belongs with
  | body executes =>
      cases executes
      rfl
  | part _ _ completes => exact completes

/-- What has a part that returns returns the same, and leaves the same behind. Only the
frames of blocks are left on the way. -/
theorem Returns.ofPart (returns : part.Returns rounds value after)
    (executes : Executes rounds whole part) (completes : whole.task.completes) :
    ∃ frame, whole.Returns rounds value { after with current := frame } := by
  cases executes with
  | block done =>
      cases done
      exact ⟨_, within_of_ok returns⟩
  | @thenBranch _ _ _ elseBranch _ _ done =>
      refine ⟨after.current, ?_⟩
      cases elseBranch <;> rw [Returns, Stmt.execute, bind_of_ok done] <;> exact returns
  | elseBranch done =>
      refine ⟨after.current, ?_⟩
      rw [Returns, Stmt.execute, bind_of_ok done]
      exact returns
  | loop =>
      refine ⟨after.current, ?_⟩
      rw [Returns, Stmt.execute]
      exact returns
  | loopBody done =>
      refine ⟨after.current, ?_⟩
      rw [Returns, repeatWhile, bind_of_ok done, if_pos rfl, bind_of_ok returns]
      rfl
  | loopRest done done' =>
      refine ⟨after.current, ?_⟩
      rw [Returns, repeatWhile, bind_of_ok done, if_pos rfl, bind_of_ok done']
      exact returns
  | firstStatement =>
      refine ⟨after.current, ?_⟩
      rw [Returns, Stmt.executeAll, bind_of_ok returns]
      rfl
  | otherStatements done =>
      refine ⟨after.current, ?_⟩
      rw [Returns, Stmt.executeAll, bind_of_ok done]
      exact returns
  | body => cases completes
  | _ => exact returns.elim

theorem restores_parameterFrame (closure : Closure) (arguments : List Value) :
    Restores (Names.parameterFrame closure arguments) := by
  apply Preserves.restores
  refine .bind (preserves_newFrame _ _) fun frame => ?_
  exact .bind (preserves_defineAll _ _ _ _) fun _ => .pure _

/-- A return ends the activation it belongs to: nothing more is done in it, and the call
delivers the value, or the object of an initializer. -/
theorem BelongsTo.ends {depth : Nat} {closure : Closure} {arguments : List Value}
    {machine : Machine}
    (belongs : BelongsTo rounds ⟨depth, .closure closure arguments, machine⟩ part)
    (returns : part.Returns rounds value after) :
    callClosure (Stmt.executeAll (callWithin rounds depth) rounds) closure arguments machine =
      (if closure.isInitializer then valueIn closure.frame "this" else pure value)
        { after with current := machine.current } := by
  generalize whole : Execution.mk depth (.closure closure arguments) machine = activation
    at belongs
  induction belongs generalizing after with
  | body executes =>
      cases whole
      cases executes with
      | @body _ _ _ frame _ _ entered =>
          have current := restores_parameterFrame closure arguments machine
          rw [leaves_of_ok entered] at current
          rw [Names.callClosure_eq, bind_of_ok entered, bind_of_ok (within_of_ok returns),
            current]
          rfl
  | part belongs executes _ induction =>
      rcases returns.ofPart executes belongs.completes with ⟨frame, returns⟩
      have ends := induction returns whole
      exact ends

end Execution

/-! ## Returns outside of routines -/

mutual

/-- There is no return in the statement but inside of routines. -/
def Stmt.Returnless : Stmt → Prop
  | .block statements => Stmt.ReturnlessAll statements
  | .ifThen _ thenBranch none => thenBranch.Returnless
  | .ifThen _ thenBranch (some elseBranch) => thenBranch.Returnless ∧ elseBranch.Returnless
  | .returns _ _ => False
  | .whileLoop _ body => body.Returnless
  | _ => True

def Stmt.ReturnlessAll : List Stmt → Prop
  | [] => True
  | statement :: rest => statement.Returnless ∧ Stmt.ReturnlessAll rest

end

section Findings

variable {surroundings : Surroundings}

mutual

theorem Stmt.returnless_of_findings (outside : surroundings.routine = .none)
    (scopes : Scopes) : ∀ statement : Stmt,
    (∀ fault, .fault fault ∉ statement.findings surroundings scopes) → statement.Returnless
  | .block statements, clean =>
      Stmt.returnlessAll_of_findings outside _ statements (by simpa [Stmt.findings] using clean)
  | .ifThen _ thenBranch none, clean => by
      simp only [Stmt.findings, List.mem_append, not_or] at clean
      exact Stmt.returnless_of_findings outside _ thenBranch fun fault => (clean fault).2
  | .ifThen _ thenBranch (some elseBranch), clean => by
      simp only [Stmt.findings, List.mem_append, not_or] at clean
      exact ⟨Stmt.returnless_of_findings outside _ thenBranch fun fault => (clean fault).1.2,
        Stmt.returnless_of_findings outside _ elseBranch fun fault => (clean fault).2⟩
  | .returns keyword value, clean => by
      refine clean ⟨keyword, .topLevelReturn⟩ ?_
      simp [Stmt.findings, Surroundings.returnUse, Finding.faultIf, outside, Finding.ofFault]
  | .whileLoop _ body, clean => by
      simp only [Stmt.findings, List.mem_append, not_or] at clean
      exact Stmt.returnless_of_findings outside _ body fun fault => (clean fault).2
  | .classDecl _ _ _, _ | .expression _, _ | .function _, _ | .print _, _ | .var _ _, _ =>
      trivial

theorem Stmt.returnlessAll_of_findings (outside : surroundings.routine = .none)
    (scopes : Scopes) : ∀ statements : List Stmt,
    (∀ fault, .fault fault ∉ Stmt.findingsOfAll surroundings scopes statements) →
      Stmt.ReturnlessAll statements
  | [], _ => trivial
  | statement :: rest, clean => by
      simp only [Stmt.findingsOfAll, List.mem_append, not_or] at clean
      exact ⟨Stmt.returnless_of_findings outside _ statement fun fault => (clean fault).1,
        Stmt.returnlessAll_of_findings outside _ rest fun fault => (clean fault).2⟩

end

end Findings

section Execution

variable {call : Caller} {rounds : Nat}

theorem Action.finished_of_repeatWhile {condition : Action Bool} {body : Action Completion}
    (finished : ∀ {machine completion later}, body machine = .ok completion later →
      completion = .finished) {limit : Nat} {machine later : Machine} {completion : Completion}
    (done : repeatWhile condition body limit machine = .ok completion later) :
    completion = .finished := by
  induction limit generalizing machine with
  | zero => cases done
  | succ limit induction =>
      rw [repeatWhile] at done
      obtain ⟨holds, between, -, rest⟩ := ok_of_bind_ok done
      cases holds with
      | false =>
          cases rest
          rfl
      | true =>
          obtain ⟨first, reached, done', rest'⟩ := ok_of_bind_ok rest
          cases finished done'
          exact induction rest'

mutual

theorem Stmt.finished_of_returnless : ∀ statement : Stmt, statement.Returnless →
    ∀ {machine later : Machine} {completion : Completion},
      statement.execute call rounds machine = .ok completion later → completion = .finished
  | .block statements, returnless, machine, later, completion, done => by
      rw [Stmt.execute] at done
      obtain ⟨outer, _, -, done⟩ := ok_of_bind_ok done
      obtain ⟨frame, reached, -, done⟩ := ok_of_bind_ok done
      simp only [within] at done
      split at done
      case h_1 inner =>
        cases done
        exact Stmt.finished_of_returnlessAll statements returnless inner
      case h_2 => cases done
  | .ifThen condition thenBranch none, returnless, machine, later, completion, done => by
      rw [Stmt.execute] at done
      obtain ⟨holds, _, -, done⟩ := ok_of_bind_ok done
      cases holds with
      | true => exact Stmt.finished_of_returnless thenBranch returnless done
      | false =>
          cases done
          rfl
  | .ifThen condition thenBranch (some elseBranch), returnless, machine, later, completion,
      done => by
      rw [Stmt.execute] at done
      obtain ⟨holds, _, -, done⟩ := ok_of_bind_ok done
      cases holds with
      | true => exact Stmt.finished_of_returnless thenBranch returnless.1 done
      | false => exact Stmt.finished_of_returnless elseBranch returnless.2 done
  | .whileLoop condition body, returnless, machine, later, completion, done => by
      rw [Stmt.execute] at done
      exact finished_of_repeatWhile (Stmt.finished_of_returnless body returnless) done
  | .var _ _, _, _, _, _, done | .print _, _, _, _, _, done => by
      rw [Stmt.execute] at done
      obtain ⟨_, _, -, done⟩ := ok_of_bind_ok done
      obtain ⟨_, _, -, done⟩ := ok_of_bind_ok done
      cases done
      rfl
  | .classDecl _ _ _, _, _, _, _, done | .expression _, _, _, _, _, done
  | .function _, _, _, _, _, done => by
      rw [Stmt.execute] at done
      obtain ⟨_, _, -, done⟩ := ok_of_bind_ok done
      cases done
      rfl

theorem Stmt.finished_of_returnlessAll : ∀ statements : List Stmt,
    Stmt.ReturnlessAll statements → ∀ {machine later : Machine} {completion : Completion},
      Stmt.executeAll call rounds statements machine = .ok completion later →
        completion = .finished
  | [], _, _, _, _, done => by
      cases done
      rfl
  | statement :: rest, ⟨returnless, returnlessRest⟩, _, _, _, done => by
      rw [Stmt.executeAll] at done
      obtain ⟨completion, between, first, others⟩ := ok_of_bind_ok done
      cases Stmt.finished_of_returnless statement returnless first
      exact Stmt.finished_of_returnlessAll rest returnlessRest others

end

end Execution

theorem Stmt.returnless_of_mem {statements : List Stmt} (returnless : ReturnlessAll statements)
    {statement : Stmt} (member : statement ∈ statements) : statement.Returnless := by
  induction statements with
  | nil => cases member
  | cons first rest induction =>
      obtain rfl | member := List.mem_cons.mp member
      · exact returnless.1
      · exact induction returnless.2 member

/-- Completions carry a return exactly as far as an exception would. Calls do the same
whether returns are completions or escape until the call of the innermost routine catches
them, and the same escapes from a statement as it completes with. Nothing escapes from an
expression, so a return does not end a caller. A return inside of an activation ends it at
once: the call goes on from what the return has left behind, with nothing done in between.
And no statement at the top level of a program without complaints is ended by a return. -/
theorem returns_end_their_activation (rounds depth : Nat) :
    (∀ closure arguments,
      Escaping.callClosure (Escaping.executeAll (Escaping.callWithin rounds depth) rounds)
        closure arguments =
      Escaping.lift (callClosure (Stmt.executeAll (callWithin rounds depth) rounds)
        closure arguments)) ∧
    (∀ paren callee arguments,
      Escaping.callWithin rounds depth paren callee arguments =
        Escaping.lift (callWithin rounds depth paren callee arguments)) ∧
    (∀ statement,
      Escaping.execute (Escaping.callWithin rounds depth) rounds statement =
        Escaping.raise (statement.execute (callWithin rounds depth) rounds)) ∧
    (∀ expression machine value later,
      Escaping.evaluate (Escaping.callWithin rounds depth) expression machine ≠
        .error (.returned value) later) ∧
    (∀ {closure : Closure} {arguments : List Value} {machine after : Machine}
      {part : Execution} {value : Value},
      Execution.BelongsTo rounds ⟨depth, .closure closure arguments, machine⟩ part →
      part.Returns rounds value after →
      callClosure (Stmt.executeAll (callWithin rounds depth) rounds) closure arguments
        machine =
          (if closure.isInitializer then valueIn closure.frame "this" else pure value)
            { after with current := machine.current }) ∧
    ∀ {firstPlace : Nat} {source : String}, (Program.ofSource firstPlace source).Clean →
      ∀ statement ∈ (Program.ofSource firstPlace source).statements,
        ∀ {machine later : Machine} {completion : Completion},
          statement.execute (callWithin rounds depth) rounds machine =
            .ok completion later → completion = .finished := by
  have calls := Escaping.callWithin_eq rounds depth
  refine ⟨Escaping.callClosure_eq (Escaping.executeAll_eq calls), calls,
    Escaping.execute_eq calls, ?_, fun belongs returns => belongs.ends returns, ?_⟩
  · intro expression machine value later
    rw [Escaping.evaluate_eq calls, Escaping.lift]
    cases expression.evaluate (callWithin rounds depth) machine <;> simp
  · intro firstPlace source clean statement member machine later completion done
    have returnless := Stmt.returnlessAll_of_findings rfl _ _ clean.binding
    exact Stmt.finished_of_returnless statement
      (Stmt.returnless_of_mem returnless member) done

def returningLoop : Closure where
  routine := .mk (⟨.identifier "f" 1, 0⟩) []
    [.whileLoop (.literal (.bool true))
      (.block [.returns ⟨.identifier "return" 1, 1⟩ (some (.literal (.string "out")))])]
  frame := Machine.globals
  isInitializer := false

/-- The return ends the loop and with it the call, and leaves the frame of the block. -/
theorem returns_end_their_activation_inLoop :
    ∃ later, callClosure (Stmt.executeAll (callWithin 1 0) 1) returningLoop [] (.bare 0) =
        .ok (.string "out") later ∧ later.current = Machine.globals ∧
      ∀ statement ∈ (Program.ofSource 0 "nil;").statements,
        ∀ {machine reached : Machine} {completion : Completion},
          statement.execute (callWithin 1 0) 1 machine = .ok completion reached →
            completion = .finished := by
  have clean : (Program.ofSource 0 "nil;").Clean := by
    rw [← Program.complaints_isEmpty_iff]
    cbv
  have whole := returns_end_their_activation 1 0
  have entered : Names.parameterFrame returningLoop [] (.bare 0) = .ok 1 _ := rfl
  have body : Execution.BelongsTo 1 ⟨0, .closure returningLoop [], .bare 0⟩ _ :=
    .body (.body entered)
  have loop := (body.part .firstStatement rfl).part .loop rfl
  have inside := (loop.part (.loopBody rfl) rfl).part (.block rfl) rfl
  have belongs := inside.part .firstStatement rfl
  exact ⟨_, whole.2.2.2.2.1 belongs rfl, rfl, whole.2.2.2.2.2 clean⟩

end LoxLang
