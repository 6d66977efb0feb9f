import LoxLang.Proofs.Returns.Escaping

/-! # Completions do what escaping returns do

A completion says that a return is under way, and everything around it has to pass it on.
The machine that does so is compared with the one on which returns escape: every
expression, statement and call does exactly the same on both.
-/

namespace LoxLang.Escaping

variable {α β : Type}

/-! ## Actions that are lifted -/

theorem lift_pure (result : α) : lift (pure result) = pure result := rfl

theorem lift_bind (first : Action β) (next : β → Action α) :
    lift (first >>= next) = lift first >>= fun result => lift (next result) := by
  funext machine
  simp only [lift, Bind.bind, EStateM.bind]
  cases first machine <;> rfl

theorem lift_ite (condition : Prop) [Decidable condition] (first second : Action α) :
    lift (if condition then first else second) =
      if condition then lift first else lift second := by
  split <;> rfl

def settle : Completion → Escaping Unit
  | .finished => pure ()
  | .returned value => throw (.returned value)

/-- An action that delivers a completion as one whose returns escape. -/
def raise (action : Action Completion) : Escaping Unit := lift action >>= settle

theorem raise_bind (first : Action β) (next : β → Action Completion) :
    raise (first >>= next) = lift first >>= fun result => raise (next result) := by
  rw [raise, lift_bind, bind_assoc]
  rfl

theorem raise_pure (completion : Completion) : raise (pure completion) = settle completion :=
  rfl

theorem raise_ite (condition : Prop) [Decidable condition] (first second : Action Completion) :
    raise (if condition then first else second) =
      if condition then raise first else raise second := by
  split <;> rfl

theorem within_raise (frame : FrameId) (action : Action Completion) :
    within frame (raise action) = raise (Action.within frame action) := by
  funext machine
  simp only [within, raise, lift, Action.within, Bind.bind, EStateM.bind]
  rcases action { machine with current := frame } with ⟨_ | _, _⟩ | _ <;> rfl

theorem catchReturn_raise (action : Action Completion) :
    catchReturn (raise action) = lift (Completion.value <$> action) := by
  funext machine
  simp only [catchReturn, raise, lift, Functor.map, EStateM.map, Bind.bind, EStateM.bind]
  rcases action machine with ⟨_ | _, _⟩ | _ <;> rfl

theorem repeatWhile_raise (condition : Action Bool) (body : Action Completion) (limit : Nat) :
    repeatWhile (lift condition) (raise body) limit =
      raise (Action.repeatWhile condition body limit) := by
  induction limit with
  | zero => rfl
  | succ limit induction =>
      rw [repeatWhile, Action.repeatWhile, raise_bind, induction]
      congr
      funext holds
      rw [raise_ite, raise_bind, raise, bind_assoc]
      congr
      funext completion
      cases completion <;> rfl

/-! ## Expressions and statements -/

section Evaluation

variable {call : Caller} {call' : LoxLang.Caller}

def CallsAgree (call : Caller) (call' : LoxLang.Caller) : Prop :=
  ∀ paren callee arguments, call paren callee arguments = lift (call' paren callee arguments)

mutual

theorem evaluate_eq (calls : CallsAgree call call') :
    ∀ expression : Expr, evaluate call expression = lift (expression.evaluate call')
  | .assign name value => by
      simp only [evaluate, Expr.evaluate, evaluate_eq calls value, lift_bind, lift_pure]
  | .binary left operator word right => by
      simp only [evaluate, Expr.evaluate, evaluate_eq calls left, evaluate_eq calls right,
        lift_bind]
  | .call callee paren arguments => by
      simp only [evaluate, Expr.evaluate, evaluate_eq calls callee,
        evaluateAll_eq calls arguments, calls _ _ _, lift_bind]
  | .get object name => by
      simp only [evaluate, Expr.evaluate, evaluate_eq calls object, lift_bind]
  | .grouping inner => by simp only [evaluate, Expr.evaluate, evaluate_eq calls inner]
  | .literal value => by simp only [evaluate, Expr.evaluate, lift_pure]
  | .logical left operator _ right => by
      simp only [evaluate, Expr.evaluate, evaluate_eq calls left, evaluate_eq calls right,
        lift_bind, lift_ite, lift_pure]
  | .set object name value => by
      simp only [evaluate, Expr.evaluate, evaluate_eq calls object, lift_bind]
      congr
      funext result
      cases result with
      | object => simp only [evaluate_eq calls value, lift_bind, lift_pure]
      | _ => rfl
  | .super keyword method | .this keyword | .variable name => by
      simp only [evaluate, Expr.evaluate]
  | .unary operator word right => by
      simp only [evaluate, Expr.evaluate, evaluate_eq calls right, lift_bind]

theorem evaluateAll_eq (calls : CallsAgree call call') :
    ∀ expressions : List Expr,
      evaluateAll call expressions = lift (Expr.evaluateAll call' expressions)
  | [] => by simp only [evaluateAll, Expr.evaluateAll, lift_pure]
  | expression :: rest => by
      simp only [evaluateAll, Expr.evaluateAll, evaluate_eq calls expression,
        evaluateAll_eq calls rest, lift_bind, lift_pure]

end

theorem evaluateOption_eq (calls : CallsAgree call call') (expression : Option Expr) :
    evaluateOption call expression = lift (Expr.evaluateOption call' expression) := by
  cases expression with
  | none => rfl
  | some expression => exact evaluate_eq calls expression

theorem test_eq (calls : CallsAgree call call') (condition : Expr) :
    test call condition = lift (condition.test call') := by
  simp only [test, Expr.test, evaluate_eq calls condition, lift_bind, lift_pure]

variable {rounds : Nat}

mutual

/-- A return escapes from a statement exactly if the statement completes with it. -/
theorem execute_eq (calls : CallsAgree call call') :
    ∀ statement : Stmt, execute call rounds statement = raise (statement.execute call' rounds)
  | .block statements => by
      simp only [execute, Stmt.execute, executeAll_eq calls statements, within_raise,
        raise_bind, lift_bind, bind_assoc]
  | .classDecl name superclass methods => by
      simp only [execute, Stmt.execute, raise_bind, raise_pure, settle, bind_pure_unit]
  | .expression inner => by
      simp only [execute, Stmt.execute, evaluate_eq calls inner, raise_bind, raise_pure,
        settle]
  | .function routine => by
      simp only [execute, Stmt.execute, raise_bind, raise_pure, settle, bind_pure_unit]
  | .ifThen condition thenBranch none => by
      simp only [execute, Stmt.execute, test_eq calls condition, execute_eq calls thenBranch,
        raise_bind, raise_ite, raise_pure, settle]
  | .ifThen condition thenBranch (some elseBranch) => by
      simp only [execute, Stmt.execute, test_eq calls condition, execute_eq calls thenBranch,
        execute_eq calls elseBranch, raise_bind, raise_ite]
  | .print inner => by
      simp only [execute, Stmt.execute, evaluate_eq calls inner, raise_bind, raise_pure,
        settle, bind_pure_unit]
  | .returns keyword value => by
      simp only [execute, Stmt.execute, evaluateOption_eq calls value, raise_bind, raise_pure,
        settle]
  | .var name initializer => by
      simp only [execute, Stmt.execute, evaluateOption_eq calls initializer, raise_bind,
        raise_pure, settle, bind_pure_unit]
  | .whileLoop condition body => by
      simp only [execute, Stmt.execute, test_eq calls condition, execute_eq calls body,
        repeatWhile_raise]

theorem executeAll_eq (calls : CallsAgree call call') :
    ∀ statements : List Stmt,
      executeAll call rounds statements = raise (Stmt.executeAll call' rounds statements)
  | [] => by simp only [executeAll, Stmt.executeAll, raise_pure, settle]
  | statement :: rest => by
      rw [executeAll, Stmt.executeAll, execute_eq calls statement, executeAll_eq calls rest,
        raise_bind, raise, bind_assoc]
      congr
      funext completion
      cases completion <;> rfl

end

end Evaluation

/-! ## Calls -/

section Calls

variable {run : BodyRunner} {run' : LoxLang.BodyRunner}

def RunsAgree (run : BodyRunner) (run' : LoxLang.BodyRunner) : Prop :=
  ∀ body, run body = raise (run' body)

theorem callClosure_eq (runs : RunsAgree run run') (closure : Closure)
    (arguments : List Value) :
    callClosure run closure arguments = lift (Action.callClosure run' closure arguments) := by
  simp only [callClosure, Action.callClosure, runs _, within_raise, catchReturn_raise,
    lift_bind, lift_ite, lift_pure, map_eq_pure_bind, bind_assoc, pure_bind]

theorem construct_eq (runs : RunsAgree run run') (description : Class)
    (arguments : List Value) :
    construct run description arguments =
      lift (Action.construct run' description arguments) := by
  simp only [construct, Action.construct, lift_bind]
  congr
  funext object
  cases description.initializer? with
  | none => rfl
  | some method => simp only [callClosure_eq runs, lift_bind, lift_pure]

theorem callValue_eq (runs : RunsAgree run run') (callee : Value) (arguments : List Value) :
    callValue run callee arguments = lift (Action.callValue run' callee arguments) := by
  cases callee with
  | function => exact callClosure_eq runs _ _
  | classValue => exact construct_eq runs _ _
  | _ => rfl

theorem callWithin_eq (rounds : Nat) :
    ∀ depth, CallsAgree (callWithin rounds depth) (LoxLang.callWithin rounds depth)
  | 0 => by
      intro paren callee arguments
      simp only [callWithin, LoxLang.callWithin, lift_bind]
  | depth + 1 => by
      intro paren callee arguments
      have runs : RunsAgree (executeAll (callWithin rounds depth) rounds)
          (Stmt.executeAll (LoxLang.callWithin rounds depth) rounds) :=
        executeAll_eq (callWithin_eq rounds depth)
      simp only [callWithin, LoxLang.callWithin, callValue_eq runs, lift_bind]

end Calls

end LoxLang.Escaping
