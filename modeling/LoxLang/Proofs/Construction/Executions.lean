import LoxLang.Proofs.Construction.Evaluation

/-! # Executions that begin on proper machines

What is executed in the course of a proper execution begins on a proper machine as well, and
is itself about proper words and proper values. So what is known of calls on proper
machines holds of every call that a program makes.
-/

namespace LoxLang

open LoxLang.Construction

def Task.Proper (machine : Machine) : Task → Prop
  | .expression inner => inner.Proper
  | .expressions inner => ∀ reference ∈ Expr.referencesOfAll inner, reference.Proper
  | .statement inner => inner.Proper
  | .statements inner => ∀ mention ∈ Stmt.mentionsOfAll inner, mention.Proper
  | .loop condition body _ => condition.Proper ∧ body.Proper
  | .call _ callee arguments =>
    callee.Proper machine ∧ ∀ argument ∈ arguments, argument.Proper machine
  | .closure called arguments =>
    called.Proper machine.frames ∧ ∀ argument ∈ arguments, argument.Proper machine

structure Execution.Proper (execution : Execution) : Prop where
  machine : execution.machine.Proper
  task : execution.task.Proper execution.machine

section Steps

variable {rounds depth : Nat} {machine reached : Machine}

theorem Expr.Proper.evaluated {expression : Expr} {value : Value}
    (proper : expression.Proper) (properMachine : machine.Proper)
    (done : expression.evaluate (callWithin rounds depth) machine = .ok value reached) :
    reached.Proper ∧ value.Proper reached := by
  obtain ⟨leads, properValue⟩ :=
    (leads_evaluate (callWithin_leads rounds depth) expression proper).ok properMachine done
  exact ⟨leads.proper, properValue⟩

theorem Expr.Proper.tested {condition : Expr} {holds : Bool} (proper : condition.Proper)
    (properMachine : machine.Proper)
    (done : condition.test (callWithin rounds depth) machine = .ok holds reached) :
    reached.Proper :=
  ((leads_test (callWithin_leads rounds depth) proper).ok properMachine done).1.proper

theorem Stmt.Proper.executed {statement : Stmt} {completion : Completion}
    (proper : statement.Proper) (properMachine : machine.Proper)
    (done : statement.execute (callWithin rounds depth) rounds machine =
      .ok completion reached) : reached.Proper :=
  ((leads_execute (callWithin_leads rounds depth) statement proper).ok properMachine
    done).1.proper

theorem Stmt.Proper.ifThen {condition : Expr} {thenBranch : Stmt} {elseBranch : Option Stmt}
    (proper : Stmt.Proper (.ifThen condition thenBranch elseBranch)) :
    condition.Proper ∧ thenBranch.Proper := by
  cases elseBranch with
  | none =>
      obtain ⟨first, others⟩ := List.forall_mem_append.mp proper
      exact ⟨.of_mentions first, others⟩
  | some elseBranch =>
      obtain ⟨first, others⟩ := List.forall_mem_append.mp proper
      exact ⟨.of_mentions first, (List.forall_mem_append.mp others).1⟩

/-- What proper executions execute is proper when its turn comes. -/
theorem Execution.Proper.executes {whole part : Execution} (proper : whole.Proper)
    (executes : Executes rounds whole part) : part.Proper := by
  obtain ⟨machine, task⟩ := proper
  cases executes with
  | assigned => exact ⟨machine, (List.forall_mem_cons.mp task).2⟩
  | binaryLeft | callee | logicalLeft | setObject | firstExpression | firstStatement =>
      exact ⟨machine, (List.forall_mem_append.mp task).1⟩
  | getObject | grouped | unaryOperand => exact ⟨machine, task⟩
  | binaryRight done | logicalRight done _ | setValue done | arguments done
  | otherExpressions done =>
      obtain ⟨first, others⟩ := List.forall_mem_append.mp task
      exact ⟨(Expr.Proper.evaluated first machine done).1, others⟩
  | call done done' =>
      obtain ⟨properCallee, properArguments⟩ := List.forall_mem_append.mp task
      obtain ⟨between, properValue⟩ := Expr.Proper.evaluated properCallee machine done
      obtain ⟨leads, properValues⟩ :=
        (leads_evaluateAll (callWithin_leads _ _) _ properArguments).ok between done'
      exact ⟨leads.proper, properValue.mono leads.precedes, properValues⟩
  | block done =>
      cases done
      exact ⟨(machine.push _).inFrame (by simp) (Frames.here?_push_size _ _), task⟩
  | inner | printed => exact ⟨machine, .of_mentions task⟩
  | condition => exact ⟨machine, (Stmt.Proper.ifThen task).1⟩
  | thenBranch done =>
      obtain ⟨properCondition, properThen⟩ := Stmt.Proper.ifThen task
      exact ⟨properCondition.tested machine done, properThen⟩
  | elseBranch done =>
      obtain ⟨first, others⟩ := List.forall_mem_append.mp task
      exact ⟨Expr.Proper.tested (.of_mentions first) machine done,
        (List.forall_mem_append.mp others).2⟩
  | returned | initializer =>
      exact ⟨machine, .of_mentions (List.forall_mem_cons.mp task).2⟩
  | loop =>
      obtain ⟨first, others⟩ := List.forall_mem_append.mp task
      exact ⟨machine, .of_mentions first, others⟩
  | loopCondition => exact ⟨machine, task.1⟩
  | loopBody done => exact ⟨Expr.Proper.tested task.1 machine done, task.2⟩
  | loopRest done done' =>
      have between := Expr.Proper.tested task.1 machine done
      exact ⟨Stmt.Proper.executed task.2 between done', task⟩
  | otherStatements done =>
      obtain ⟨first, others⟩ := List.forall_mem_append.mp task
      exact ⟨Stmt.Proper.executed first machine done, others⟩
  | function checked =>
      obtain ⟨leads, rfl⟩ := (leads_checkCall _ _ _).ok machine checked
      exact ⟨machine, task⟩
  | construct checked made found bound =>
      obtain ⟨leads, rfl⟩ := (leads_checkCall _ _ _).ok machine checked
      obtain ⟨properClass, properArguments⟩ := task
      obtain ⟨leads, rfl, properObject⟩ := (leads_newObject properClass).ok machine made
      obtain ⟨properMethod, -⟩ :=
        Class.Proper.mono properClass leads.precedes "init" _ found
      obtain ⟨leads', ⟨properBound, -⟩, -⟩ :=
        (leads_bindThis properMethod properObject trivial).ok leads.proper bound
      exact ⟨leads'.proper, properBound, fun argument member =>
        (properArguments argument member).mono (leads.trans leads').precedes⟩
  | body entered =>
      obtain ⟨leads, exists_, open_⟩ :=
        (leads_parameterFrame task.1 task.2).ok machine entered
      exact ⟨leads.proper.inFrame exists_ open_, task.1.routine.body⟩

end Steps

end LoxLang
