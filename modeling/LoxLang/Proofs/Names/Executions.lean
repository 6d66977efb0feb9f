import LoxLang.Proofs.Machine.CurrentFrame
import LoxLang.Proofs.Names.Evaluation

/-! # Executions inside of executions

Executing a program executes its statements, their parts, and the bodies of the routines
that are called on the way, each on the machine that what came before has left behind.
Each of these executions finds the names it may use in the frames around it, so what is
known of expressions, statements and calls in general applies to it.
-/

namespace LoxLang

/-- What a machine can be made to do. -/
inductive Task where
  | expression (expression : Expr)
  | expressions (expressions : List Expr)
  | statement (statement : Stmt)
  | statements (statements : List Stmt)
  | loop (condition : Expr) (body : Stmt) (limit : Nat)
  | call (paren : Occurrence) (callee : Value) (arguments : List Value)
  | closure (closure : Closure) (arguments : List Value)

structure Execution where
  depth : Nat
  task : Task
  machine : Machine

/-- What an execution executes itself, with loops of at most so many rounds. -/
inductive Executes (rounds : Nat) : Execution → Execution → Prop
  -- Expressions evaluate their operands from left to right.
  | assigned {depth : Nat} {value : Expr} {name : Occurrence} {machine : Machine} :
      Executes rounds ⟨depth, .expression (.assign name value), machine⟩
        ⟨depth, .expression value, machine⟩
  | binaryLeft {depth : Nat} {left right : Expr} {operator : BinaryOperator}
      {word : Occurrence} {machine : Machine} :
      Executes rounds ⟨depth, .expression (.binary left operator word right), machine⟩
        ⟨depth, .expression left, machine⟩
  | binaryRight {depth : Nat} {left right : Expr} {operator : BinaryOperator}
      {word : Occurrence} {value : Value} {machine reached : Machine}
      (done : left.evaluate (callWithin rounds depth) machine = .ok value reached) :
      Executes rounds ⟨depth, .expression (.binary left operator word right), machine⟩
        ⟨depth, .expression right, reached⟩
  | callee {depth : Nat} {callee : Expr} {arguments : List Expr} {paren : Occurrence}
      {machine : Machine} :
      Executes rounds ⟨depth, .expression (.call callee paren arguments), machine⟩
        ⟨depth, .expression callee, machine⟩
  | arguments {depth : Nat} {callee : Expr} {arguments : List Expr} {paren : Occurrence}
      {value : Value} {machine reached : Machine}
      (done : callee.evaluate (callWithin rounds depth) machine = .ok value reached) :
      Executes rounds ⟨depth, .expression (.call callee paren arguments), machine⟩
        ⟨depth, .expressions arguments, reached⟩
  | call {depth : Nat} {callee : Expr} {arguments : List Expr} {paren : Occurrence}
      {value : Value} {values : List Value} {machine between reached : Machine}
      (done : callee.evaluate (callWithin rounds depth) machine = .ok value between)
      (done' : Expr.evaluateAll (callWithin rounds depth) arguments between =
        .ok values reached) :
      Executes rounds ⟨depth, .expression (.call callee paren arguments), machine⟩
        ⟨depth, .call paren value values, reached⟩
  | getObject {depth : Nat} {object : Expr} {name : Occurrence} {machine : Machine} :
      Executes rounds ⟨depth, .expression (.get object name), machine⟩
        ⟨depth, .expression object, machine⟩
  | grouped {depth : Nat} {inner : Expr} {machine : Machine} :
      Executes rounds ⟨depth, .expression (.grouping inner), machine⟩
        ⟨depth, .expression inner, machine⟩
  | logicalLeft {depth : Nat} {left right : Expr} {operator : LogicalOperator}
      {word : Occurrence} {machine : Machine} :
      Executes rounds ⟨depth, .expression (.logical left operator word right), machine⟩
        ⟨depth, .expression left, machine⟩
  | logicalRight {depth : Nat} {left right : Expr} {operator : LogicalOperator}
      {word : Occurrence} {value : Value} {machine reached : Machine}
      (done : left.evaluate (callWithin rounds depth) machine = .ok value reached)
      (undecided : operator.decidedBy value = false) :
      Executes rounds ⟨depth, .expression (.logical left operator word right), machine⟩
        ⟨depth, .expression right, reached⟩
  | setObject {depth : Nat} {object value : Expr} {name : Occurrence} {machine : Machine} :
      Executes rounds ⟨depth, .expression (.set object name value), machine⟩
        ⟨depth, .expression object, machine⟩
  | setValue {depth identity : Nat} {object value : Expr} {name : Occurrence}
      {description : Class} {machine reached : Machine}
      (done : object.evaluate (callWithin rounds depth) machine =
        .ok (.object identity description) reached) :
      Executes rounds ⟨depth, .expression (.set object name value), machine⟩
        ⟨depth, .expression value, reached⟩
  | unaryOperand {depth : Nat} {right : Expr} {operator : UnaryOperator}
      {word : Occurrence} {machine : Machine} :
      Executes rounds ⟨depth, .expression (.unary operator word right), machine⟩
        ⟨depth, .expression right, machine⟩
  | firstExpression {depth : Nat} {expression : Expr} {rest : List Expr}
      {machine : Machine} :
      Executes rounds ⟨depth, .expressions (expression :: rest), machine⟩
        ⟨depth, .expression expression, machine⟩
  | otherExpressions {depth : Nat} {expression : Expr} {rest : List Expr} {value : Value}
      {machine reached : Machine}
      (done : expression.evaluate (callWithin rounds depth) machine = .ok value reached) :
      Executes rounds ⟨depth, .expressions (expression :: rest), machine⟩
        ⟨depth, .expressions rest, reached⟩
  -- A block is executed in a new frame.
  | block {depth : Nat} {statements : List Stmt} {frame : FrameId}
      {machine reached : Machine}
      (done : Action.newFrame machine.current machine = .ok frame reached) :
      Executes rounds ⟨depth, .statement (.block statements), machine⟩
        ⟨depth, .statements statements, { reached with current := frame }⟩
  | inner {depth : Nat} {inner : Expr} {machine : Machine} :
      Executes rounds ⟨depth, .statement (.expression inner), machine⟩
        ⟨depth, .expression inner, machine⟩
  | condition {depth : Nat} {condition : Expr} {thenBranch : Stmt}
      {elseBranch : Option Stmt} {machine : Machine} :
      Executes rounds
        ⟨depth, .statement (.ifThen condition thenBranch elseBranch), machine⟩
        ⟨depth, .expression condition, machine⟩
  | thenBranch {depth : Nat} {condition : Expr} {thenBranch : Stmt}
      {elseBranch : Option Stmt} {machine reached : Machine}
      (done : condition.test (callWithin rounds depth) machine = .ok true reached) :
      Executes rounds
        ⟨depth, .statement (.ifThen condition thenBranch elseBranch), machine⟩
        ⟨depth, .statement thenBranch, reached⟩
  | elseBranch {depth : Nat} {condition : Expr} {thenBranch elseBranch : Stmt}
      {machine reached : Machine}
      (done : condition.test (callWithin rounds depth) machine = .ok false reached) :
      Executes rounds
        ⟨depth, .statement (.ifThen condition thenBranch (some elseBranch)), machine⟩
        ⟨depth, .statement elseBranch, reached⟩
  | printed {depth : Nat} {inner : Expr} {machine : Machine} :
      Executes rounds ⟨depth, .statement (.print inner), machine⟩
        ⟨depth, .expression inner, machine⟩
  | returned {depth : Nat} {value : Expr} {keyword : Occurrence} {machine : Machine} :
      Executes rounds ⟨depth, .statement (.returns keyword (some value)), machine⟩
        ⟨depth, .expression value, machine⟩
  | initializer {depth : Nat} {value : Expr} {name : Occurrence} {machine : Machine} :
      Executes rounds ⟨depth, .statement (.var name (some value)), machine⟩
        ⟨depth, .expression value, machine⟩
  | loop {depth : Nat} {condition : Expr} {body : Stmt} {machine : Machine} :
      Executes rounds ⟨depth, .statement (.whileLoop condition body), machine⟩
        ⟨depth, .loop condition body rounds, machine⟩
  -- A loop goes on as long as its condition holds.
  | loopCondition {depth limit : Nat} {condition : Expr} {body : Stmt} {machine : Machine} :
      Executes rounds ⟨depth, .loop condition body (limit + 1), machine⟩
        ⟨depth, .expression condition, machine⟩
  | loopBody {depth limit : Nat} {condition : Expr} {body : Stmt}
      {machine reached : Machine}
      (done : condition.test (callWithin rounds depth) machine = .ok true reached) :
      Executes rounds ⟨depth, .loop condition body (limit + 1), machine⟩
        ⟨depth, .statement body, reached⟩
  | loopRest {depth limit : Nat} {condition : Expr} {body : Stmt}
      {machine between reached : Machine}
      (done : condition.test (callWithin rounds depth) machine = .ok true between)
      (done' : body.execute (callWithin rounds depth) rounds between = .ok .finished reached) :
      Executes rounds ⟨depth, .loop condition body (limit + 1), machine⟩
        ⟨depth, .loop condition body limit, reached⟩
  | firstStatement {depth : Nat} {statement : Stmt} {rest : List Stmt} {machine : Machine} :
      Executes rounds ⟨depth, .statements (statement :: rest), machine⟩
        ⟨depth, .statement statement, machine⟩
  | otherStatements {depth : Nat} {statement : Stmt} {rest : List Stmt}
      {machine reached : Machine}
      (done : statement.execute (callWithin rounds depth) rounds machine =
        .ok .finished reached) :
      Executes rounds ⟨depth, .statements (statement :: rest), machine⟩
        ⟨depth, .statements rest, reached⟩
  -- A call executes the body of a function or of an initializer.
  | function {depth identity : Nat} {paren : Occurrence} {closure : Closure}
      {arguments : List Value} {machine reached : Machine}
      (checked : Action.checkCall paren (.function identity closure) arguments
        machine = .ok () reached) :
      Executes rounds
        ⟨depth + 1, .call paren (.function identity closure) arguments, machine⟩
        ⟨depth, .closure closure arguments, reached⟩
  | construct {depth : Nat} {paren : Occurrence} {description : Class}
      {method initializer : Closure} {object : Value} {arguments : List Value}
      {machine first second reached : Machine}
      (checked : Action.checkCall paren (.classValue description) arguments machine =
        .ok () first)
      (made : Action.newObject description first = .ok object second)
      (found : description.initializer? = some method)
      (bound : Action.bindThis method object second = .ok initializer reached) :
      Executes rounds ⟨depth + 1, .call paren (.classValue description) arguments, machine⟩
        ⟨depth, .closure initializer arguments, reached⟩
  | body {depth : Nat} {closure : Closure} {arguments : List Value} {frame : FrameId}
      {machine reached : Machine}
      (entered : Names.parameterFrame closure arguments machine = .ok frame reached) :
      Executes rounds ⟨depth, .closure closure arguments, machine⟩
        ⟨depth, .statements closure.routine.body, { reached with current := frame }⟩

namespace Names

/-! ## Ready machines -/

structure Stands (settlement : Settlement) (scopes : Scopes) (machine : Machine) :
    Prop where
  sound : machine.Sound settlement
  covers : scopes.Covers machine.frames machine.current

/-- A task is settled in the scopes around the current frame. -/
inductive Ready (settlement : Settlement) : Execution → Prop
  | expression {depth : Nat} {expression : Expr} {scopes : Scopes} {machine : Machine}
      (stands : Stands settlement scopes machine) (usable : scopes.Usable)
      (settled : expression.Settled settlement scopes) :
      Ready settlement ⟨depth, .expression expression, machine⟩
  | expressions {depth : Nat} {expressions : List Expr} {scopes : Scopes}
      {machine : Machine} (stands : Stands settlement scopes machine)
      (usable : scopes.Usable) (settled : Expr.SettledAll settlement scopes expressions) :
      Ready settlement ⟨depth, .expressions expressions, machine⟩
  | statement {depth : Nat} {statement : Stmt} {scopes : Scopes} {machine : Machine}
      (stands : Stands settlement scopes machine)
      (complete : scopes.Complete) (settled : statement.Settled settlement scopes) :
      Ready settlement ⟨depth, .statement statement, machine⟩
  | statements {depth : Nat} {statements : List Stmt} {scopes : Scopes}
      {machine : Machine} (stands : Stands settlement scopes machine)
      (complete : scopes.Complete)
      (settled : Stmt.SettledAll settlement scopes statements) :
      Ready settlement ⟨depth, .statements statements, machine⟩
  | loop {depth limit : Nat} {condition : Expr} {body : Stmt} {scopes : Scopes}
      {machine : Machine} (stands : Stands settlement scopes machine)
      (complete : scopes.Complete)
      (settled : Stmt.Settled settlement scopes (.whileLoop condition body)) :
      Ready settlement ⟨depth, .loop condition body limit, machine⟩
  | call {depth : Nat} {paren : Occurrence} {callee : Value} {arguments : List Value}
      {machine : Machine} (sound : machine.Sound settlement)
      (soundCallee : callee.Sound settlement machine.frames)
      (soundArguments : ∀ argument ∈ arguments,
        argument.Sound settlement machine.frames) :
      Ready settlement ⟨depth, .call paren callee arguments, machine⟩
  | closure {depth : Nat} {closure : Closure} {arguments : List Value}
      {machine : Machine} (sound : machine.Sound settlement)
      (soundClosure : closure.Sound settlement machine.frames)
      (lengths : closure.arity = arguments.length)
      (soundArguments : ∀ argument ∈ arguments,
        argument.Sound settlement machine.frames) :
      Ready settlement ⟨depth, .closure closure arguments, machine⟩

section Steps

variable {settlement : Settlement} {scopes : Scopes} {machine reached : Machine}
  {rounds depth : Nat}

theorem Stands.ok {gains : Gains} {action : Action α} {post : Frames → α → Prop}
    {result : α} (stands : Stands settlement scopes machine)
    (keeps : Keeps settlement gains machine.frames machine.current action post)
    (done : action machine = .ok result reached) :
    Stands settlement scopes reached ∧ machine.frames.Grows gains reached.frames ∧
      post reached.frames result := by
  rcases keeps.ok ⟨stands.sound, rfl, rfl⟩ done with ⟨grows, there, results⟩
  exact ⟨⟨there.sound, there.current ▸ stands.covers.mono grows⟩, grows, results⟩

theorem Stands.evaluate {expression : Expr} {value : Value}
    (stands : Stands settlement scopes machine) (usable : scopes.Usable)
    (settled : expression.Settled settlement scopes)
    (done : expression.evaluate (callWithin rounds depth) machine = .ok value reached) :
    Stands settlement scopes reached ∧ value.Sound settlement reached.frames := by
  have keeps := keeps_evaluate (callWithin_keeps rounds depth) stands.covers usable
    expression settled
  rcases stands.ok keeps done with ⟨stands', -, sound⟩
  exact ⟨stands', sound⟩

theorem Stands.evaluateAll {expressions : List Expr} {values : List Value}
    (stands : Stands settlement scopes machine) (usable : scopes.Usable)
    (settled : Expr.SettledAll settlement scopes expressions)
    (done : Expr.evaluateAll (callWithin rounds depth) expressions machine =
      .ok values reached) :
    reached.Sound settlement ∧
      machine.frames.Grows (begun scopes machine.current) reached.frames ∧
        ∀ value ∈ values, value.Sound settlement reached.frames := by
  have keeps := keeps_evaluateAll (callWithin_keeps rounds depth) stands.covers usable
    expressions settled
  rcases stands.ok keeps done with ⟨stands', grows, sounds⟩
  exact ⟨stands'.sound, grows, sounds⟩

theorem Stands.test {condition : Expr} {holds : Bool}
    (stands : Stands settlement scopes machine) (complete : scopes.Complete)
    (settled : condition.Settled settlement scopes)
    (done : condition.test (callWithin rounds depth) machine = .ok holds reached) :
    Stands settlement scopes reached :=
  have keeps : Keeps settlement .none _ _ _ _ :=
    keeps_test (callWithin_keeps rounds depth) stands.covers complete settled
  (stands.ok keeps done).1

theorem Stands.execute {statement : Stmt} (stands : Stands settlement scopes machine)
    (complete : scopes.Complete) (settled : statement.Settled settlement scopes)
    (done : statement.execute (callWithin rounds depth) rounds machine =
      .ok .finished reached) :
    Stands settlement (statement.scopesAfter scopes) reached := by
  have keeps : Keeps settlement _ _ _ (statement.execute _ rounds) _ :=
    keeps_execute (callWithin_keeps rounds depth) stands.covers complete statement settled
  rcases keeps.ok ⟨stands.sound, rfl, rfl⟩ done with ⟨grows, there, -, finished⟩
  exact ⟨there.sound, there.current ▸ finished rfl⟩

theorem settled_of_ifThen {condition : Expr} {thenBranch : Stmt}
    {elseBranch : Option Stmt}
    (settled : Stmt.Settled settlement scopes (.ifThen condition thenBranch elseBranch)) :
    condition.Settled settlement scopes ∧ thenBranch.Settled settlement scopes := by
  cases elseBranch with
  | none => exact ⟨settled.1, settled.2.2⟩
  | some elseBranch => exact ⟨settled.1, settled.2.1.2⟩

/-- What an execution executes is ready when its turn comes. -/
theorem Ready.executes {whole part : Execution} (ready : Ready settlement whole)
    (executes : Executes rounds whole part) : Ready settlement part := by
  cases ready with
  | expression stands usable settled =>
      cases executes with
      | assigned | binaryLeft | callee | logicalLeft | setObject =>
          exact .expression stands usable settled.1
      | getObject | grouped | unaryOperand => exact .expression stands usable settled
      | binaryRight done | logicalRight done _ | setValue done =>
          exact .expression (stands.evaluate usable settled.1 done).1 usable settled.2
      | arguments done =>
          exact .expressions (stands.evaluate usable settled.1 done).1 usable settled.2
      | call done done' =>
          rcases stands.evaluate usable settled.1 done with ⟨between, soundCallee⟩
          rcases between.evaluateAll usable settled.2 done' with ⟨sound, grows, sounds⟩
          exact .call sound (soundCallee.grow grows) sounds
  | expressions stands usable settled =>
      cases executes with
      | firstExpression => exact .expression stands usable settled.1
      | otherExpressions done =>
          exact .expressions (stands.evaluate usable settled.1 done).1 usable settled.2
  | statement stands complete settled =>
      cases executes with
      | block done =>
          cases done
          exact .statements ⟨(stands.sound.push _).inFrame _, stands.covers.block⟩
            (complete.nest []) settled
      | inner | printed | returned => exact .expression stands complete.usable settled
      | condition => exact .expression stands complete.usable (settled_of_ifThen settled).1
      | thenBranch done =>
          exact .statement (stands.test complete (settled_of_ifThen settled).1 done) complete
            (settled_of_ifThen settled).2
      | elseBranch done =>
          exact .statement (stands.test complete settled.1 done) complete settled.2.2.2
      | initializer =>
          exact .expression ⟨stands.sound, stands.covers.declare _⟩
            (complete.declare settled.1.unreserved) settled.2
      | loop => exact .loop stands complete settled
  | statements stands complete settled =>
      cases executes with
      | firstStatement => exact .statement stands complete settled.1
      | otherStatements done =>
          exact .statements (stands.execute complete settled.1 done)
            (complete.scopesAfter _) settled.2
  | loop stands complete settled =>
      rcases id settled with ⟨conditionSettled, undeclared, bodySettled⟩
      cases executes with
      | loopCondition => exact .expression stands complete.usable conditionSettled
      | loopBody done =>
          exact .statement (stands.test complete conditionSettled done) complete bodySettled
      | loopRest done done' =>
          have after := (stands.test complete conditionSettled done).execute complete
            bodySettled done'
          rw [Stmt.scopesAfter, undeclared] at after
          exact .loop after complete settled
  | call sound soundCallee soundArguments =>
      cases executes with
      | function checked =>
          rcases sound.ok (keeps_checkCall _ _ _) checked with ⟨sound', -, same, arity⟩
          exact .closure sound' (same ▸ soundCallee) (Option.some.inj arity)
            (same ▸ soundArguments)
      | construct checked made found bound =>
          rcases sound.ok (keeps_checkCall _ _ _) checked with ⟨first, -, same, arity⟩
          rw [← same] at soundCallee soundArguments
          rcases first.ok (keeps_newObject soundCallee) made with
            ⟨second, -, same', soundObject⟩
          rw [← same'] at soundCallee soundArguments soundObject
          have soundMethod := soundCallee "init" _ found
          rcases second.ok (keeps_bindThis soundMethod soundObject) bound with
            ⟨sound', grows, soundBound, routine⟩
          exact .closure sound' soundBound
            ((Class.arity_eq found routine).symm.trans (Option.some.inj arity))
            fun argument member => (soundArguments argument member).grow grows
  | closure sound soundClosure lengths soundArguments =>
      rcases soundClosure with ⟨scopes, covers, complete, settled⟩
      cases executes with
      | body entered =>
          rcases sound.ok (keeps_parameterFrame covers lengths soundArguments) entered with
            ⟨sound', -, -, inside⟩
          exact .statements ⟨sound'.inFrame _, inside⟩ (complete.nest _) settled.body

theorem Keeps.leaves {gains : Gains} {action : Action α} {post : Frames → α → Prop}
    (keeps : Keeps settlement gains machine.frames machine.current action post)
    (sound : machine.Sound settlement) :
    machine.frames.Grows gains (action.leaves machine).frames ∧
      (action.leaves machine).Sound settlement ∧
        (action.leaves machine).current = machine.current := by
  have ends := keeps machine ⟨sound, rfl, rfl⟩
  rw [Action.leaves]
  generalize action machine = outcome at ends ⊢
  cases ends with
  | ok grows there _ => exact ⟨grows, there.sound, there.current⟩
  | error grows there => exact ⟨grows, there.sound, there.current⟩

theorem Ready.grows {statement : Stmt}
    (ready : Ready settlement ⟨depth, .statement statement, machine⟩) :
    machine.frames.Grows (declaredBy statement machine.current)
      ((statement.execute (callWithin rounds depth) rounds).leaves machine).frames := by
  cases ready with
  | statement stands complete settled =>
      exact ((keeps_execute (callWithin_keeps rounds depth) stands.covers complete statement
        settled).leaves stands.sound).1

end Steps

end Names

end LoxLang
