import LoxLang.Proofs.Construction.Actions
import LoxLang.Proofs.Machine.Course

/-! # What programs do to proper machines

Proper programs lead from proper machines to proper ones, checked or not. In particular,
when the body of an initializer has been executed, however it ended, the frame around it
still has its object, so the call delivers that object.
-/

namespace LoxLang.Construction

open LoxLang.Action

variable {machine : Machine}

def CallsLead (call : Caller) : Prop :=
  ∀ {machine : Machine} (paren : Occurrence) {callee : Value} {arguments : List Value},
    callee.Proper machine → (∀ argument ∈ arguments, argument.Proper machine) →
      Leads machine (call paren callee arguments) fun later value => value.Proper later

/-! ## Expressions -/

section Expressions

variable {call : Caller}

mutual

theorem leads_evaluate (calls : CallsLead call) {machine : Machine} :
    ∀ expression : Expr, expression.Proper →
      Leads machine (expression.evaluate call) fun later value => value.Proper later
  | .assign name value, proper => by
      obtain ⟨properName, properValue⟩ := List.forall_mem_cons.mp proper
      rw [Expr.evaluate]
      apply (leads_evaluate calls value properValue).bind
      intro between result _ proper
      apply (leads_assign proper properName.ne_this).bind
      intro later _ leads _
      exact .pure (proper.mono leads.precedes)
  | .binary left operator word right, proper => by
      obtain ⟨properLeft, properRight⟩ := List.forall_mem_append.mp proper
      rw [Expr.evaluate]
      apply (leads_evaluate calls left properLeft).bind
      intro between _ _ _
      apply (leads_evaluate calls right properRight).bind
      intro later _ _ _
      exact leads_ofOperator word fun _ applied =>
        (BinaryOperator.isPlain_apply applied).proper
  | .call callee paren arguments, proper => by
      obtain ⟨properCallee, properArguments⟩ := List.forall_mem_append.mp proper
      rw [Expr.evaluate]
      apply (leads_evaluate calls callee properCallee).bind
      intro between value _ proper
      apply (leads_evaluateAll calls arguments properArguments).bind
      intro later values leads properValues
      exact calls paren (proper.mono leads.precedes) properValues
  | .get object name, proper => by
      rw [Expr.evaluate]
      apply (leads_evaluate calls object proper).bind
      exact fun _ _ _ proper => leads_property proper name
  | .grouping inner, proper => by
      rw [Expr.evaluate]
      exact leads_evaluate calls inner proper
  | .literal value, _ => by
      rw [Expr.evaluate]
      exact .pure (Value.isPlain_literal value).proper
  | .logical left operator word right, proper => by
      obtain ⟨properLeft, properRight⟩ := List.forall_mem_append.mp proper
      rw [Expr.evaluate]
      apply (leads_evaluate calls left properLeft).bind
      intro between value _ proper
      split
      · exact .pure proper
      · exact leads_evaluate calls right properRight
  | .set object name value, proper => by
      obtain ⟨properObject, properValue⟩ := List.forall_mem_append.mp proper
      rw [Expr.evaluate]
      apply (leads_evaluate calls object properObject).bind
      intro between found _ _
      cases found with
      | object identity description =>
          apply (leads_evaluate calls value properValue).bind
          intro later result _ proper
          apply (leads_setField identity name.lexeme proper).bind
          intro latest _ leads _
          exact .pure (proper.mono leads.precedes)
      | nil | bool | number | string | function | native | classValue => exact .throw _
  | .super keyword method, _ => by
      rw [Expr.evaluate]
      exact leads_superMethod keyword method
  | .this keyword, _ => by
      rw [Expr.evaluate]
      exact (leads_read keyword).imp fun _ _ _ found => found.1 ▸ found.2
  | .unary operator word right, proper => by
      rw [Expr.evaluate]
      apply (leads_evaluate calls right proper).bind
      intro later _ _ _
      exact leads_ofOperator word fun _ applied =>
        (UnaryOperator.isPlain_apply applied).proper
  | .variable name, _ => by
      rw [Expr.evaluate]
      exact (leads_read name).imp fun _ _ _ found => found.1 ▸ found.2

theorem leads_evaluateAll (calls : CallsLead call) {machine : Machine} :
    ∀ expressions : List Expr,
      (∀ reference ∈ Expr.referencesOfAll expressions, reference.Proper) →
        Leads machine (Expr.evaluateAll call expressions) fun later values =>
          ∀ value ∈ values, value.Proper later
  | [], _ => by
      rw [Expr.evaluateAll]
      exact .pure (List.forall_mem_nil _)
  | expression :: rest, proper => by
      obtain ⟨properFirst, properRest⟩ := List.forall_mem_append.mp proper
      rw [Expr.evaluateAll]
      apply (leads_evaluate calls expression properFirst).bind
      intro between value _ proper
      apply (leads_evaluateAll calls rest properRest).bind
      intro later values leads properValues
      exact .pure (List.forall_mem_cons.mpr ⟨proper.mono leads.precedes, properValues⟩)

end

theorem leads_evaluateOption (calls : CallsLead call) {expression : Option Expr}
    {initialized : Option Occurrence}
    (proper : ∀ mention ∈ Expr.mentionsOfOption initialized expression, mention.Proper) :
    Leads machine (Expr.evaluateOption call expression) fun later value =>
      value.Proper later := by
  cases expression with
  | none => exact .pure trivial
  | some expression => exact leads_evaluate calls expression (.of_mentions proper)

theorem leads_test (calls : CallsLead call) {condition : Expr} (proper : condition.Proper) :
    Leads machine (condition.test call) fun _ _ => True :=
  (leads_evaluate calls condition proper).bind fun _ _ _ _ => .pure trivial

end Expressions

/-! ## Statements -/

section Statements

variable {call : Caller} {rounds : Nat}

mutual

theorem leads_execute (calls : CallsLead call) {machine : Machine} :
    ∀ statement : Stmt, statement.Proper →
      Leads machine (statement.execute call rounds) fun later completion =>
        completion.value.Proper later
  | .block statements, proper => by
      rw [Stmt.execute]
      apply leads_currentFrame.bind
      rintro _ frame - ⟨rfl, rfl⟩
      apply (leads_newFrame _).bind
      intro later inner _ new
      exact leads_within new.1 new.2 (leads_executeAll calls statements proper)
  | .classDecl name superclass methods, proper => by
      obtain ⟨declared, others⟩ := List.forall_mem_cons.mp proper
      obtain ⟨-, properMethods⟩ := List.forall_mem_append.mp others
      rw [Stmt.execute]
      apply (leads_declareClass declared.ne_this fun _ member =>
        .of_mem properMethods member).bind
      exact fun _ _ _ _ => .pure trivial
  | .expression inner, proper => by
      rw [Stmt.execute]
      apply (leads_evaluate calls inner (.of_mentions proper)).bind
      exact fun _ _ _ _ => .pure trivial
  | .function routine, proper => by
      obtain ⟨declared, properRoutine⟩ := List.forall_mem_cons.mp proper
      rw [Stmt.execute]
      apply (leads_declareFunction properRoutine declared.ne_this).bind
      exact fun _ _ _ _ => .pure trivial
  | .ifThen condition thenBranch none, proper => by
      obtain ⟨properCondition, properThen⟩ := List.forall_mem_append.mp proper
      rw [Stmt.execute]
      apply (leads_test calls (.of_mentions properCondition)).bind
      intro between holds _ _
      split
      · exact leads_execute calls thenBranch properThen
      · exact .pure trivial
  | .ifThen condition thenBranch (some elseBranch), proper => by
      obtain ⟨properCondition, branches⟩ := List.forall_mem_append.mp proper
      obtain ⟨properThen, properElse⟩ := List.forall_mem_append.mp branches
      rw [Stmt.execute]
      apply (leads_test calls (.of_mentions properCondition)).bind
      intro between holds _ _
      split
      · exact leads_execute calls thenBranch properThen
      · exact leads_execute calls elseBranch properElse
  | .print inner, proper => by
      rw [Stmt.execute]
      apply (leads_evaluate calls inner (.of_mentions proper)).bind
      intro between value _ _
      apply (leads_print value.text).bind
      exact fun _ _ _ _ => .pure trivial
  | .returns keyword value, proper => by
      obtain ⟨-, properValue⟩ := List.forall_mem_cons.mp proper
      rw [Stmt.execute]
      apply (leads_evaluateOption calls properValue).bind
      exact fun _ _ _ proper => .pure proper
  | .var name initializer, proper => by
      obtain ⟨declared, properInitializer⟩ := List.forall_mem_cons.mp proper
      rw [Stmt.execute]
      apply (leads_evaluateOption calls properInitializer).bind
      intro between value _ proper
      apply (leads_define proper declared.ne_this).bind
      exact fun _ _ _ _ => .pure trivial
  | .whileLoop condition body, proper => by
      obtain ⟨properCondition, properBody⟩ := List.forall_mem_append.mp proper
      rw [Stmt.execute]
      exact leads_repeatWhile (fun _ => leads_test calls (.of_mentions properCondition))
        (fun _ => leads_execute calls body properBody) rounds machine

theorem leads_executeAll (calls : CallsLead call) {machine : Machine} :
    ∀ statements : List Stmt,
      (∀ mention ∈ Stmt.mentionsOfAll statements, mention.Proper) →
        Leads machine (Stmt.executeAll call rounds statements) fun later completion =>
          completion.value.Proper later
  | [], _ => by
      rw [Stmt.executeAll]
      exact .pure trivial
  | statement :: rest, proper => by
      obtain ⟨properFirst, properRest⟩ := List.forall_mem_append.mp proper
      rw [Stmt.executeAll]
      apply (leads_execute calls statement properFirst).bind
      intro between completion _ proper
      cases completion with
      | finished => exact leads_executeAll calls rest properRest
      | returned value => exact .pure proper

end

end Statements

/-! ## Calls -/

section Calls

variable {run : BodyRunner} {closure : Closure} {arguments : List Value}
  {description : Class} {result : Value} {later : Machine}

def RunsLead (run : BodyRunner) : Prop :=
  ∀ {machine : Machine} (statements : List Stmt),
    (∀ mention ∈ Stmt.mentionsOfAll statements, mention.Proper) →
      Leads machine (run statements) fun later completion => completion.value.Proper later

def executeBody (run : BodyRunner) (closure : Closure) (arguments : List Value) :
    Action Completion := do
  let frame ← Names.parameterFrame closure arguments
  within frame (run closure.routine.body)

theorem callClosure_eq (run : BodyRunner) (closure : Closure) (arguments : List Value) :
    callClosure run closure arguments = (do
      let completion ← executeBody run closure arguments
      if closure.isInitializer then valueIn closure.frame "this"
      else pure completion.value) := by
  rw [Names.callClosure_eq, executeBody, bind_assoc]

theorem leads_parameterFrame (proper : closure.Proper machine.frames)
    (properArguments : ∀ argument ∈ arguments, argument.Proper machine) :
    Leads machine (Names.parameterFrame closure arguments) fun later frame =>
      frame < later.frames.size ∧ later.frames.here? frame "this" = none := by
  apply (leads_newFrame _).bind
  intro between frame leads new
  apply (leads_defineAll proper.routine.parameters fun argument member =>
    (properArguments argument member).mono leads.precedes).bind
  intro later _ leads' _
  exact .pure ⟨Nat.lt_of_lt_of_le new.1 leads'.precedes.frames,
    (leads'.precedes.this frame new.1).trans new.2⟩

theorem leads_executeBody (runs : RunsLead run) (proper : closure.Proper machine.frames)
    (properArguments : ∀ argument ∈ arguments, argument.Proper machine) :
    Leads machine (executeBody run closure arguments) fun later completion =>
      completion.value.Proper later := by
  apply (leads_parameterFrame proper properArguments).bind
  intro later frame _ new
  exact leads_within new.1 new.2 (runs _ proper.routine.body)

theorem leads_callClosure (runs : RunsLead run) (proper : closure.Proper machine.frames)
    (properArguments : ∀ argument ∈ arguments, argument.Proper machine) :
    Leads machine (callClosure run closure arguments) fun later value =>
      value.Proper later := by
  rw [callClosure_eq]
  apply (leads_executeBody runs proper properArguments).bind
  intro later completion _ proper
  split
  · apply (leads_valueIn _ "this").imp
    exact fun _ _ _ found => found.1 ▸ found.2.1
  · exact .pure proper

theorem leads_construct (runs : RunsLead run) (proper : description.Proper machine.frames)
    (properArguments : ∀ argument ∈ arguments, argument.Proper machine) :
    Leads machine (construct run description arguments) fun later value =>
      value.Proper later := by
  apply (leads_newObject proper).bind
  rintro first object leads ⟨rfl, properObject⟩
  cases found : description.initializer? with
  | none => exact .pure properObject
  | some method =>
      obtain ⟨properMethod, -⟩ :=
        Class.Proper.mono proper leads.precedes "init" method found
      apply (leads_bindThis properMethod properObject trivial).bind
      intro second initializer leads' bound
      apply (leads_callClosure runs bound.1.1 fun argument member =>
        ((properArguments argument member).mono leads.precedes).mono leads'.precedes).bind
      intro third _ leads'' _
      exact .pure ((properObject.mono leads'.precedes).mono leads''.precedes)

theorem leads_callValue (runs : RunsLead run) {callee : Value}
    (proper : callee.Proper machine)
    (properArguments : ∀ argument ∈ arguments, argument.Proper machine) :
    Leads machine (callValue run callee arguments) fun later value =>
      value.Proper later := by
  cases callee with
  | native builtIn => exact leads_answer builtIn.answer properArguments
  | function identity closure => exact leads_callClosure runs proper properArguments
  | classValue description => exact leads_construct runs proper properArguments
  | nil | bool | number | string | object => exact .throw _

theorem callWithin_leads (rounds : Nat) : ∀ depth, CallsLead (callWithin rounds depth)
  | 0 => by
      intro paren callee arguments _ _
      rw [callWithin]
      apply (leads_checkCall paren callee arguments).bind
      exact fun _ _ _ _ => .throw _
  | depth + 1 => by
      intro paren callee arguments proper properArguments
      rw [callWithin]
      apply (leads_checkCall paren callee arguments).bind
      rintro _ _ - rfl
      have runs : RunsLead (Stmt.executeAll (callWithin rounds depth) rounds) :=
        leads_executeAll (callWithin_leads rounds depth)
      exact leads_callValue runs proper properArguments

theorem executeAll_leads (rounds depth : Nat) :
    RunsLead (Stmt.executeAll (callWithin rounds depth) rounds) :=
  leads_executeAll (callWithin_leads rounds depth)

/-! ### What calls deliver -/

theorem callClosure_delivers (runs : RunsLead run) (properMachine : machine.Proper)
    (proper : closure.Proper machine.frames)
    (properArguments : ∀ argument ∈ arguments, argument.Proper machine)
    (done : callClosure run closure arguments machine = .ok result later) :
    ∃ completion, executeBody run closure arguments machine = .ok completion later ∧
      if closure.isInitializer then closure.BoundTo machine.frames result
      else result = completion.value := by
  rw [callClosure_eq] at done
  obtain ⟨completion, between, executed, delivered⟩ := ok_of_bind_ok done
  obtain ⟨leads, -⟩ :=
    (leads_executeBody runs proper properArguments).ok properMachine executed
  refine ⟨completion, ?_⟩
  cases initializes : closure.isInitializer with
  | false =>
      rw [initializes] at delivered
      cases delivered
      exact ⟨executed, rfl⟩
  | true =>
      rw [initializes, if_pos rfl, valueIn] at delivered
      split at delivered
      case h_1 value found =>
          cases delivered
          exact ⟨executed, (proper.boundTo_iff leads.precedes).mp found⟩
      case h_2 => cases delivered

theorem construct_delivers (runs : RunsLead run) (properMachine : machine.Proper)
    (proper : description.Proper machine.frames)
    (properArguments : ∀ argument ∈ arguments, argument.Proper machine)
    (done : construct run description arguments machine = .ok result later) :
    result = .object machine.objects.size description ∧
      machine.objects.size < later.objects.size := by
  obtain ⟨leads, properResult⟩ :=
    (leads_construct runs proper properArguments).ok properMachine done
  have delivered : result = .object machine.objects.size description := by
    obtain ⟨object, between, made, rest⟩ := ok_of_bind_ok done
    cases made
    cases found : description.initializer? with
    | none =>
        rw [found] at rest
        cases rest
        rfl
    | some method =>
        rw [found] at rest
        obtain ⟨initializer, bound, -, rest⟩ := ok_of_bind_ok rest
        obtain ⟨_, called, -, rest⟩ := ok_of_bind_ok rest
        cases rest
        rfl
  subst delivered
  exact ⟨rfl, properResult.1⟩

end Calls

end LoxLang.Construction
