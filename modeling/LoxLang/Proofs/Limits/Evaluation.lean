import LoxLang.Proofs.Limits.Actions

/-! # Programs within wider limits

Where more calls may be active and loops may take more rounds, every expression, statement
and call does what it did before, or it was stopped by a limit before. The first call that
is too deep is such a stop, and what is called there instead prints on.
-/

namespace LoxLang

open LoxLang.Action

def Stop.overflow (paren : Occurrence) : Stop := .error ⟨paren, .stackOverflow⟩

def Caller.Outlasts (limits : Stop → Prop) (wide narrow : Caller) : Prop :=
  ∀ paren callee arguments,
    Action.Outlasts limits (wide paren callee arguments) (narrow paren callee arguments)

section Trees

variable {limits : Stop → Prop} {wide narrow : Caller}

/-! ## Expressions -/

mutual

theorem outlasts_evaluate (calls : wide.Outlasts limits narrow) :
    ∀ expression : Expr,
      Outlasts limits (expression.evaluate wide) (expression.evaluate narrow)
  | .assign name value => by
      rw [Expr.evaluate, Expr.evaluate]
      apply (outlasts_evaluate calls value).bind
      intro result
      exact (Outlasts.silent (preserves_assign .printed name result)).bind fun _ => .pure _
  | .binary left operator word right => by
      rw [Expr.evaluate, Expr.evaluate]
      apply (outlasts_evaluate calls left).bind
      intro value
      apply (outlasts_evaluate calls right).bind
      intro other
      exact .silent (preserves_ofOperator .printed word _)
  | .call callee paren arguments => by
      rw [Expr.evaluate, Expr.evaluate]
      apply (outlasts_evaluate calls callee).bind
      intro value
      apply (outlasts_evaluateAll calls arguments).bind
      intro values
      exact calls paren value values
  | .get object name => by
      rw [Expr.evaluate, Expr.evaluate]
      apply (outlasts_evaluate calls object).bind
      intro value
      exact .silent (preserves_property .printed value name)
  | .grouping inner => by
      rw [Expr.evaluate, Expr.evaluate]
      exact outlasts_evaluate calls inner
  | .literal value => by
      rw [Expr.evaluate, Expr.evaluate]
      exact .pure _
  | .logical left operator word right => by
      rw [Expr.evaluate, Expr.evaluate]
      apply (outlasts_evaluate calls left).bind
      intro value
      split
      · exact .pure _
      · exact outlasts_evaluate calls right
  | .set object name value => by
      rw [Expr.evaluate, Expr.evaluate]
      apply (outlasts_evaluate calls object).bind
      intro found
      cases found with
      | object identity description =>
          apply (outlasts_evaluate calls value).bind
          intro result
          exact (Outlasts.silent (preserves_setField .printed identity name.lexeme
            result)).bind fun _ => .pure _
      | nil | bool | number | string | function | native | classValue => exact .throw _
  | .super keyword method => by
      rw [Expr.evaluate, Expr.evaluate]
      exact .silent (preserves_superMethod .printed keyword method)
  | .this keyword => by
      rw [Expr.evaluate, Expr.evaluate]
      exact .silent (preserves_read .printed keyword)
  | .unary operator word right => by
      rw [Expr.evaluate, Expr.evaluate]
      apply (outlasts_evaluate calls right).bind
      intro value
      exact .silent (preserves_ofOperator .printed word _)
  | .variable name => by
      rw [Expr.evaluate, Expr.evaluate]
      exact .silent (preserves_read .printed name)

theorem outlasts_evaluateAll (calls : wide.Outlasts limits narrow) :
    ∀ expressions : List Expr,
      Outlasts limits (Expr.evaluateAll wide expressions)
        (Expr.evaluateAll narrow expressions)
  | [] => by
      rw [Expr.evaluateAll, Expr.evaluateAll]
      exact .pure _
  | expression :: rest => by
      rw [Expr.evaluateAll, Expr.evaluateAll]
      apply (outlasts_evaluate calls expression).bind
      intro value
      exact (outlasts_evaluateAll calls rest).bind fun _ => .pure _

end

theorem outlasts_evaluateOption (calls : wide.Outlasts limits narrow)
    (expression : Option Expr) :
    Outlasts limits (Expr.evaluateOption wide expression)
      (Expr.evaluateOption narrow expression) := by
  cases expression with
  | none => exact .pure _
  | some expression => exact outlasts_evaluate calls expression

theorem outlasts_test (calls : wide.Outlasts limits narrow) (condition : Expr) :
    Outlasts limits (condition.test wide) (condition.test narrow) :=
  (outlasts_evaluate calls condition).bind fun _ => .pure _

/-! ## Statements -/

variable {rounds rounds' : Nat}

mutual

theorem outlasts_execute (unfinished : limits .unfinished) (more : rounds ≤ rounds')
    (calls : wide.Outlasts limits narrow) :
    ∀ statement : Stmt,
      Outlasts limits (statement.execute wide rounds') (statement.execute narrow rounds)
  | .block statements => by
      rw [Stmt.execute, Stmt.execute]
      apply (Outlasts.silent (preserves_currentFrame .printed)).bind
      intro frame
      apply (Outlasts.silent (preserves_newFrame .printed frame)).bind
      intro inner
      exact (outlasts_executeAll unfinished more calls statements).within inner
  | .classDecl name superclass methods => by
      rw [Stmt.execute, Stmt.execute]
      exact (Outlasts.silent (preserves_declareClass .printed name superclass methods)).bind
        fun _ => .pure _
  | .expression inner => by
      rw [Stmt.execute, Stmt.execute]
      exact (outlasts_evaluate calls inner).bind fun _ => .pure _
  | .function routine => by
      rw [Stmt.execute, Stmt.execute]
      exact (Outlasts.silent (preserves_declareFunction .printed routine)).bind
        fun _ => .pure _
  | .ifThen condition thenBranch none => by
      rw [Stmt.execute, Stmt.execute]
      apply (outlasts_test calls condition).bind
      intro holds
      split
      · exact outlasts_execute unfinished more calls thenBranch
      · exact .pure _
  | .ifThen condition thenBranch (some elseBranch) => by
      rw [Stmt.execute, Stmt.execute]
      apply (outlasts_test calls condition).bind
      intro holds
      split
      · exact outlasts_execute unfinished more calls thenBranch
      · exact outlasts_execute unfinished more calls elseBranch
  | .print inner => by
      rw [Stmt.execute, Stmt.execute]
      apply (outlasts_evaluate calls inner).bind
      intro value
      exact (outlasts_print value.text).bind fun _ => .pure _
  | .returns keyword value => by
      rw [Stmt.execute, Stmt.execute]
      exact (outlasts_evaluateOption calls value).bind fun _ => .pure _
  | .var name initializer => by
      rw [Stmt.execute, Stmt.execute]
      apply (outlasts_evaluateOption calls initializer).bind
      intro value
      exact (Outlasts.silent (preserves_define .printed name.lexeme value)).bind
        fun _ => .pure _
  | .whileLoop condition body => by
      rw [Stmt.execute, Stmt.execute]
      exact outlasts_repeatWhile (outlasts_test calls condition)
        (outlasts_execute unfinished more calls body) unfinished more

theorem outlasts_executeAll (unfinished : limits .unfinished) (more : rounds ≤ rounds')
    (calls : wide.Outlasts limits narrow) :
    ∀ statements : List Stmt,
      Outlasts limits (Stmt.executeAll wide rounds' statements)
        (Stmt.executeAll narrow rounds statements)
  | [] => by
      rw [Stmt.executeAll, Stmt.executeAll]
      exact .pure _
  | statement :: rest => by
      rw [Stmt.executeAll, Stmt.executeAll]
      apply (outlasts_execute unfinished more calls statement).bind
      intro completion
      cases completion with
      | finished => exact outlasts_executeAll unfinished more calls rest
      | returned value => exact .pure _

end

end Trees

/-! ## Calls -/

section Calls

variable {limits : Stop → Prop} {wide narrow : BodyRunner}
  (runs : ∀ statements, Outlasts limits (wide statements) (narrow statements))

include runs

theorem outlasts_callClosure (closure : Closure) (arguments : List Value) :
    Outlasts limits (callClosure wide closure arguments)
      (callClosure narrow closure arguments) := by
  apply (Outlasts.silent (preserves_newFrame .printed closure.frame)).bind
  intro frame
  apply (Outlasts.silent (preserves_defineAll .printed frame _ _)).bind
  intro _
  apply ((runs closure.routine.body).within frame).bind
  intro completion
  split
  · exact .silent (preserves_valueIn .printed _ _)
  · exact .pure _

theorem outlasts_construct (description : Class) (arguments : List Value) :
    Outlasts limits (construct wide description arguments)
      (construct narrow description arguments) := by
  apply (Outlasts.silent (preserves_newObject .printed description)).bind
  intro object
  split
  · apply (Outlasts.silent (preserves_bindThis .printed _ object)).bind
    intro initializer
    exact (outlasts_callClosure runs initializer arguments).bind fun _ => .pure _
  · exact .pure _

theorem outlasts_callValue (callee : Value) (arguments : List Value) :
    Outlasts limits (callValue wide callee arguments)
      (callValue narrow callee arguments) := by
  cases callee with
  | native builtIn => exact .silent (preserves_answer .printed _ _)
  | function identity closure => exact outlasts_callClosure runs closure arguments
  | classValue description => exact outlasts_construct runs description arguments
  | nil | bool | number | string | object => exact .throw _

end Calls

section Limits

variable {limits : Stop → Prop} {rounds rounds' : Nat} (unfinished : limits .unfinished)
  (more : rounds ≤ rounds')

include unfinished more

/-- The induction is on the number of calls that may be active within the wider limits,
since they are what goes on where the narrow limits are exceeded. -/
theorem outlasts_callWithin : ∀ {depth depth' : Nat}, depth ≤ depth' →
    (depth = depth' ∨ ∀ paren, limits (.overflow paren)) →
      (callWithin rounds' depth').Outlasts limits (callWithin rounds depth)
  | 0, 0, _, _ => fun paren callee arguments =>
    (Outlasts.silent (preserves_checkCall .printed paren callee arguments)).bind
      fun _ => .throw _
  | 0, depth' + 1, _, overflow => fun paren callee arguments => by
      have itself := outlasts_callWithin (Nat.le_refl depth') (.inl rfl)
      have inner := outlasts_executeAll unfinished more itself
      apply (Outlasts.silent (preserves_checkCall .printed paren callee arguments)).bind
      intro _
      have limit := overflow.resolve_left nofun paren
      exact .stopped limit (outlasts_callValue inner callee arguments).prints
  | depth + 1, depth' + 1, deeper, overflow => fun paren callee arguments => by
      have calls := outlasts_callWithin (Nat.le_of_succ_le_succ deeper)
        (overflow.imp_left Nat.succ.inj)
      have inner := outlasts_executeAll unfinished more calls
      apply (Outlasts.silent (preserves_checkCall .printed paren callee arguments)).bind
      intro _
      exact outlasts_callValue inner callee arguments

end Limits

end LoxLang
