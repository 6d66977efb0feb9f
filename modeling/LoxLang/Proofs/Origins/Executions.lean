import LoxLang.Proofs.Origins.Actions

/-! # What executions do to origins

An execution leads from a machine on which everything can be traced to another one, if
nothing but the classes that are made in its course belongs to the classes that are made at
all. Everything that it executes does so as well, and begins where everything can be traced.
-/

namespace LoxLang

open LoxLang.Action Sources

/-! ## Executions that can be traced -/

def Task.references : Task → List Reference
  | .expression inner => inner.references
  | .expressions inner => Expr.referencesOfAll inner
  | .statement inner => inner.references
  | .statements inner => Stmt.referencesOfAll inner
  | .loop condition body _ => condition.references ++ body.references
  | .call _ _ _ => []
  | .closure called _ => called.routine.references

inductive Execution.Makes (rounds : Nat) : Execution → Class → Prop
  | declared {depth : Nat} {name : Occurrence} {clause : Option Occurrence}
      {methods : List Routine} {description : Class} {machine later : Machine}
      (made : madeClass name clause methods machine = .ok description later) :
      Makes rounds ⟨depth, .statement (.classDecl name clause methods), machine⟩ description
  | part {whole part : Execution} {description : Class}
      (executes : Executes rounds whole part) (makes : Makes rounds part description) :
      Makes rounds whole description

variable (sources : Sources)

/-- The references of the task have been read together, and the values it begins with can
be traced. -/
def Task.Traced (machine : Machine) : Task → Prop
  | .call _ callee arguments =>
    callee.Traced sources machine ∧
      ∀ argument ∈ arguments, argument.Traced sources machine
  | .closure called arguments =>
    called.Traced sources machine ∧
      ∀ argument ∈ arguments, argument.Traced sources machine
  | task => sources.Read task.references

structure Execution.Traced (rounds : Nat) (execution : Execution) : Prop where
  machine : execution.machine.Traced sources
  task : execution.task.Traced sources execution.machine
  makes : ∀ description, execution.Makes rounds description → sources.Made description

def Execution.Sound (rounds : Nat) : Execution → Prop
  | ⟨depth, .expression expression, machine⟩ =>
    Leads sources machine (expression.evaluate (callWithin rounds depth))
      fun later value => value.Traced sources later
  | ⟨depth, .expressions expressions, machine⟩ =>
    Leads sources machine (Expr.evaluateAll (callWithin rounds depth) expressions)
      fun later values => ∀ value ∈ values, value.Traced sources later
  | ⟨depth, .statement statement, machine⟩ =>
    Leads sources machine (statement.execute (callWithin rounds depth) rounds)
      fun later completion => completion.value.Traced sources later
  | ⟨depth, .statements statements, machine⟩ =>
    Leads sources machine (Stmt.executeAll (callWithin rounds depth) rounds statements)
      fun later completion => completion.value.Traced sources later
  | ⟨depth, .loop condition body limit, machine⟩ =>
    Leads sources machine
      (repeatWhile (condition.test (callWithin rounds depth))
        (body.execute (callWithin rounds depth) rounds) limit)
      fun later completion => completion.value.Traced sources later
  | ⟨depth, .call paren callee arguments, machine⟩ =>
    Leads sources machine (callWithin rounds depth paren callee arguments)
      fun later value => value.Traced sources later
  | ⟨depth, .closure closure arguments, machine⟩ =>
    Leads sources machine
      (callClosure (Stmt.executeAll (callWithin rounds depth) rounds) closure arguments)
      fun later value => value.Traced sources later

def Execution.PartsSound (rounds : Nat) (whole : Execution) : Prop :=
  ∀ {part}, Executes rounds whole part → part.Traced sources rounds →
    part.Sound sources rounds

variable {sources} {rounds depth : Nat} {machine : Machine} {arguments : List Value}

namespace Execution.Sound

theorem expression {inner : Expr}
    (sound : Execution.Sound sources rounds ⟨depth, .expression inner, machine⟩) :
    Leads sources machine (inner.evaluate (callWithin rounds depth))
      fun later value => value.Traced sources later :=
  sound

theorem test {inner : Expr}
    (sound : Execution.Sound sources rounds ⟨depth, .expression inner, machine⟩) :
    Leads sources machine (inner.test (callWithin rounds depth)) fun _ _ => True :=
  sound.expression.bind fun _ _ _ _ _ => .pure trivial

theorem expressions {inner : List Expr}
    (sound : Execution.Sound sources rounds ⟨depth, .expressions inner, machine⟩) :
    Leads sources machine (Expr.evaluateAll (callWithin rounds depth) inner)
      fun later values => ∀ value ∈ values, value.Traced sources later :=
  sound

theorem statement {inner : Stmt}
    (sound : Execution.Sound sources rounds ⟨depth, .statement inner, machine⟩) :
    Leads sources machine (inner.execute (callWithin rounds depth) rounds)
      fun later completion => completion.value.Traced sources later :=
  sound

theorem statements {inner : List Stmt}
    (sound : Execution.Sound sources rounds ⟨depth, .statements inner, machine⟩) :
    Leads sources machine (Stmt.executeAll (callWithin rounds depth) rounds inner)
      fun later completion => completion.value.Traced sources later :=
  sound

theorem loop {condition : Expr} {body : Stmt} {limit : Nat}
    (sound : Execution.Sound sources rounds ⟨depth, .loop condition body limit, machine⟩) :
    Leads sources machine
      (repeatWhile (condition.test (callWithin rounds depth))
        (body.execute (callWithin rounds depth) rounds) limit)
      fun later completion => completion.value.Traced sources later :=
  sound

theorem call {paren : Occurrence} {callee : Value}
    (sound : Execution.Sound sources rounds ⟨depth, .call paren callee arguments, machine⟩) :
    Leads sources machine (callWithin rounds depth paren callee arguments)
      fun later value => value.Traced sources later :=
  sound

theorem closure {called : Closure}
    (sound : Execution.Sound sources rounds ⟨depth, .closure called arguments, machine⟩) :
    Leads sources machine
      (callClosure (Stmt.executeAll (callWithin rounds depth) rounds) called arguments)
      fun later value => value.Traced sources later :=
  sound

end Execution.Sound

theorem Sources.traced_mono {values : List Value} {later : Machine}
    (traced : ∀ value ∈ values, value.Traced sources machine)
    (leads : machine.TracedTo sources later) :
    ∀ value ∈ values, value.Traced sources later :=
  fun value member => (traced value member).mono leads.proceeds.toContinues

theorem Routine.references_body (routine : Routine) :
    Stmt.referencesOfAll routine.body = routine.references := by
  cases routine
  rfl

theorem Routine.references_subset {methods : List Routine} {method : Routine}
    (member : method ∈ methods) :
    method.references ⊆ Routine.referencesOfAll methods := by
  induction methods with
  | nil => cases member
  | cons first rest induction =>
      cases member with
      | head => exact List.subset_append_left _ _
      | tail _ member => exact List.subset_append_of_subset_right _ (induction member)

theorem Sources.of_append {first second : List Reference}
    (read : sources.Read (first ++ second)) : sources.Read first ∧ sources.Read second :=
  ⟨sources.fewer read (List.subset_append_left _ _),
    sources.fewer read (List.subset_append_right _ _)⟩

theorem Sources.leads_parameterFrame {closure : Closure}
    (traced : closure.Traced sources machine)
    (tracedArguments : ∀ argument ∈ arguments, argument.Traced sources machine) :
    Leads sources machine (Names.parameterFrame closure arguments) fun later frame =>
      frame < later.frames.size := by
  apply (leads_newFrame traced.exists_).bind
  intro between frame _ leads exists_
  apply (leads_defineAll (traced_mono tracedArguments leads)).bind
  intro later _ _ leads' _
  exact .pure (Nat.lt_of_lt_of_le exists_ leads'.proceeds.frames)

theorem Sources.of_construct {description : Class} {method initializer : Closure}
    {object : Value} {between reached : Machine} (tracedMachine : machine.Traced sources)
    (traced : description.Traced sources machine)
    (made : newObject description machine = .ok object between)
    (found : description.initializer? = some method)
    (bound : bindThis method object between = .ok initializer reached) :
    machine.TracedTo sources reached ∧ object.Traced sources reached ∧
      initializer.Traced sources reached := by
  rcases (leads_newObject traced).ok tracedMachine made with ⟨leads, tracedObject⟩
  have tracedMethod := (traced.findMethod? found).mono leads.proceeds.toContinues
  rcases (leads_bindThis tracedMethod tracedObject).ok leads.traced bound with
    ⟨leads', tracedBound⟩
  exact ⟨leads.trans leads', tracedObject.mono leads'.proceeds.toContinues, tracedBound⟩

theorem Sources.leads_callValue {run : BodyRunner} {callee : Value}
    (traced : callee.Traced sources machine)
    (tracedArguments : ∀ argument ∈ arguments, argument.Traced sources machine)
    (function : ∀ identity closure, callee = .function identity closure →
      Leads sources machine (callClosure run closure arguments)
        fun later value => value.Traced sources later)
    (construct : ∀ {description method object between initializer reached},
      callee = .classValue description → newObject description machine = .ok object between →
      description.initializer? = some method →
      bindThis method object between = .ok initializer reached →
        Leads sources reached (callClosure run initializer arguments)
          fun later value => value.Traced sources later) :
    Leads sources machine (callValue run callee arguments)
      fun later value => value.Traced sources later := by
  cases callee with
  | native builtIn => exact leads_answer _ tracedArguments
  | function identity closure => exact function identity closure rfl
  | classValue description =>
      apply (leads_newObject traced).bind
      intro between object made leads tracedObject
      cases found : description.initializer? with
      | none => exact .pure tracedObject
      | some method =>
          have tracedMethod :=
            (Class.Traced.findMethod? traced found).mono leads.proceeds.toContinues
          apply (leads_bindThis tracedMethod tracedObject).bind
          intro later initializer bound leads' _
          apply (construct rfl made found bound).bind
          intro latest _ _ leads'' _
          exact .pure (tracedObject.mono (leads'.trans leads'').proceeds.toContinues)
  | nil | bool | number | string | object => exact .throw _

/-! ## Parts -/

namespace Execution.Traced

variable {whole part : Execution}

theorem handOn (traced : whole.Traced sources rounds) (executes : Executes rounds whole part)
    (machine : part.machine.Traced sources)
    (task : part.task.Traced sources part.machine) : part.Traced sources rounds :=
  ⟨machine, task, fun description makes => traced.makes description (.part executes makes)⟩

theorem ifThen {condition : Expr} {thenBranch : Stmt} {elseBranch : Option Stmt}
    (read : sources.Read (Stmt.ifThen condition thenBranch elseBranch).references) :
    sources.Read condition.references ∧ sources.Read thenBranch.references := by
  cases elseBranch with
  | none => exact of_append read
  | some elseBranch =>
      have both : sources.Read (condition.references ++ thenBranch.references) :=
        (of_append read).1
      exact of_append both

/-- Where a part begins everything can be traced, if this is so where the parts before it
end. -/
theorem executes (traced : whole.Traced sources rounds)
    (parts : whole.PartsSound sources rounds) (executes : Executes rounds whole part) :
    part.Traced sources rounds := by
  have here := traced.handOn executes
  have machine := traced.machine
  have task := traced.task
  cases executes with
  | assigned => exact here machine (sources.fewer task (List.subset_cons_self _ _))
  | binaryLeft | callee | logicalLeft | setObject | firstExpression | firstStatement
  | loopCondition => exact here machine (of_append task).1
  | getObject | grouped | unaryOperand | inner | printed | returned | initializer | loop =>
      exact here machine task
  | binaryRight done =>
      have left := traced.handOn .binaryLeft machine (of_append task).1
      have leads := ((parts .binaryLeft left).expression.ok machine done).1
      exact here leads.traced (of_append task).2
  | logicalRight done =>
      have left := traced.handOn .logicalLeft machine (of_append task).1
      have leads := ((parts .logicalLeft left).expression.ok machine done).1
      exact here leads.traced (of_append task).2
  | setValue done =>
      have object := traced.handOn .setObject machine (of_append task).1
      have leads := ((parts .setObject object).expression.ok machine done).1
      exact here leads.traced (of_append task).2
  | otherExpressions done =>
      have first := traced.handOn .firstExpression machine (of_append task).1
      have leads := ((parts .firstExpression first).expression.ok machine done).1
      exact here leads.traced (of_append task).2
  | arguments done =>
      have callee := traced.handOn .callee machine (of_append task).1
      have leads := ((parts .callee callee).expression.ok machine done).1
      exact here leads.traced (of_append task).2
  | call done done' =>
      have callee := traced.handOn .callee machine (of_append task).1
      rcases (parts .callee callee).expression.ok machine done with ⟨leads, tracedCallee⟩
      have others := traced.handOn (.arguments done) leads.traced (of_append task).2
      rcases (parts (.arguments done) others).expressions.ok leads.traced done' with
        ⟨leads', tracedArguments⟩
      exact here leads'.traced
        ⟨tracedCallee.mono leads'.proceeds.toContinues, tracedArguments⟩
  | block done =>
      rcases (leads_newFrame machine.exists_).ok machine done with ⟨leads, exists_⟩
      exact here (leads.traced.inFrame exists_) task
  | condition => exact here machine (ifThen task).1
  | thenBranch done =>
      have condition := traced.handOn .condition machine (ifThen task).1
      have leads := ((parts .condition condition).test.ok machine done).1
      exact here leads.traced (ifThen task).2
  | elseBranch done =>
      have condition := traced.handOn .condition machine (ifThen task).1
      have leads := ((parts .condition condition).test.ok machine done).1
      exact here leads.traced (of_append task).2
  | loopBody done =>
      have condition := traced.handOn .loopCondition machine (of_append task).1
      have leads := ((parts .loopCondition condition).test.ok machine done).1
      exact here leads.traced (of_append task).2
  | loopRest done done' =>
      have condition := traced.handOn .loopCondition machine (of_append task).1
      have leads := ((parts .loopCondition condition).test.ok machine done).1
      have body := traced.handOn (.loopBody done) leads.traced (of_append task).2
      have leads' := ((parts (.loopBody done) body).statement.ok leads.traced done').1
      exact here leads'.traced task
  | otherStatements done =>
      have first := traced.handOn .firstStatement machine (of_append task).1
      have leads := ((parts .firstStatement first).statement.ok machine done).1
      exact here leads.traced (of_append task).2
  | function checked =>
      rcases (leads_checkCall _ _ _).ok machine checked with ⟨-, rfl⟩
      exact here machine task
  | construct checked made found bound =>
      rcases (leads_checkCall _ _ _).ok machine checked with ⟨-, rfl⟩
      rcases task with ⟨tracedClass, tracedArguments⟩
      rcases of_construct machine tracedClass made found bound with ⟨leads, -, tracedBound⟩
      exact here leads.traced ⟨tracedBound, traced_mono tracedArguments leads⟩
  | @body _ closure _ _ _ _ entered =>
      rcases (leads_parameterFrame task.1 task.2).ok machine entered with ⟨leads, exists_⟩
      refine here (leads.traced.inFrame exists_) ?_
      change sources.Read (Stmt.referencesOfAll closure.routine.body)
      rw [Routine.references_body]
      exact task.1.read

end Execution.Traced

/-! ## Wholes -/

namespace Execution.Traced

abbrev Parts (sources : Sources) (rounds : Nat) (whole : Execution) : Prop :=
  ∀ {part}, Executes rounds whole part → part.Sound sources rounds

theorem sound_expression {expression : Expr}
    (part : Parts sources rounds ⟨depth, .expression expression, machine⟩) :
    Leads sources machine (expression.evaluate (callWithin rounds depth))
      fun later value => value.Traced sources later := by
  cases expression with
  | assign name value =>
      rw [Expr.evaluate]
      apply (part .assigned).expression.bind
      intro between result _ _ tracedResult
      apply (leads_assign name tracedResult).bind
      intro later _ _ leads _
      exact .pure (tracedResult.mono leads.proceeds.toContinues)
  | binary left operator word right =>
      rw [Expr.evaluate]
      apply (part .binaryLeft).expression.bind
      intro between value done _ _
      apply (part (.binaryRight done)).expression.bind
      intro later _ _ _ _
      exact leads_ofOperator word fun _ applied =>
        (BinaryOperator.isPlain_apply applied).traced
  | call callee paren arguments =>
      rw [Expr.evaluate]
      apply (part .callee).expression.bind
      intro between value done _ _
      apply (part (.arguments done)).expressions.bind
      intro later values done' _ _
      exact (part (.call done done')).call
  | get object name =>
      rw [Expr.evaluate]
      apply (part .getObject).expression.bind
      exact fun _ _ _ _ tracedObject => leads_property tracedObject name
  | grouping inner =>
      rw [Expr.evaluate]
      exact (part .grouped).expression
  | literal value =>
      rw [Expr.evaluate]
      exact .pure (Value.isPlain_literal value).traced
  | logical left operator word right =>
      rw [Expr.evaluate]
      apply (part .logicalLeft).expression.bind
      intro between value done _ tracedValue
      cases decided : operator.decidedBy value with
      | true => exact .pure tracedValue
      | false => exact (part (.logicalRight done decided)).expression
  | set object name value =>
      rw [Expr.evaluate]
      apply (part .setObject).expression.bind
      intro between found done _ _
      cases found with
      | object identity description =>
          apply (part (.setValue done)).expression.bind
          intro later result _ _ tracedResult
          apply (leads_setField identity name.lexeme tracedResult).bind
          intro latest _ _ leads _
          exact .pure (tracedResult.mono leads.proceeds.toContinues)
      | nil | bool | number | string | function | native | classValue => exact .throw _
  | super keyword method =>
      rw [Expr.evaluate]
      exact leads_superMethod keyword method
  | this keyword | «variable» keyword =>
      rw [Expr.evaluate]
      exact (leads_read keyword).imp fun _ _ _ found => found.1 ▸ found.2
  | unary operator word right =>
      rw [Expr.evaluate]
      apply (part .unaryOperand).expression.bind
      intro later _ _ _ _
      exact leads_ofOperator word fun _ applied =>
        (UnaryOperator.isPlain_apply applied).traced

theorem sound_expressions {expressions : List Expr}
    (part : Parts sources rounds ⟨depth, .expressions expressions, machine⟩) :
    Leads sources machine (Expr.evaluateAll (callWithin rounds depth) expressions)
      fun later values => ∀ value ∈ values, value.Traced sources later := by
  cases expressions with
  | nil =>
      rw [Expr.evaluateAll]
      exact .pure (List.forall_mem_nil _)
  | cons expression rest =>
      rw [Expr.evaluateAll]
      apply (part .firstExpression).expression.bind
      intro between value done _ tracedValue
      apply (part (.otherExpressions done)).expressions.bind
      intro later values _ leads tracedValues
      exact .pure (List.forall_mem_cons.mpr
        ⟨tracedValue.mono leads.proceeds.toContinues, tracedValues⟩)

theorem sound_statement {statement : Stmt}
    (traced : Execution.Traced sources rounds ⟨depth, .statement statement, machine⟩)
    (part : Parts sources rounds ⟨depth, .statement statement, machine⟩) :
    Leads sources machine (statement.execute (callWithin rounds depth) rounds)
      fun later completion => completion.value.Traced sources later := by
  have read : sources.Read statement.references := traced.task
  cases statement with
  | block statements =>
      rw [Stmt.execute]
      intro tracedMachine
      refine leads_currentFrame.bind ?_ tracedMachine
      rintro _ frame - - ⟨rfl, rfl⟩
      apply (leads_newFrame tracedMachine.exists_).bind
      intro later inner done _ exists_
      exact leads_within exists_ (part (.block done)).statements
  | classDecl name clause methods =>
      have readMethods : ∀ method ∈ methods, sources.Read method.references :=
        fun method member =>
          sources.fewer (of_append read).2 (Routine.references_subset member)
      rw [Stmt.execute]
      apply (leads_declareClass readMethods fun description later made =>
        traced.makes description (.declared made)).bind
      exact fun _ _ _ _ _ => .pure trivial
  | expression inner =>
      rw [Stmt.execute]
      exact (part .inner).expression.bind fun _ _ _ _ _ => .pure trivial
  | function routine =>
      rw [Stmt.execute]
      exact (leads_declareFunction read).bind fun _ _ _ _ _ => .pure trivial
  | ifThen condition thenBranch elseBranch =>
      cases elseBranch with
      | none =>
          rw [Stmt.execute]
          apply (part .condition).test.bind
          intro between holds done _ _
          cases holds with
          | true => exact (part (.thenBranch done)).statement
          | false => exact .pure trivial
      | some elseBranch =>
          rw [Stmt.execute]
          apply (part .condition).test.bind
          intro between holds done _ _
          cases holds with
          | true => exact (part (.thenBranch done)).statement
          | false => exact (part (.elseBranch done)).statement
  | print inner =>
      rw [Stmt.execute]
      apply (part .printed).expression.bind
      intro between value _ _ _
      exact (leads_print value.text).bind fun _ _ _ _ _ => .pure trivial
  | returns keyword value =>
      rw [Stmt.execute]
      cases value with
      | none => exact .pure trivial
      | some value =>
          exact (part .returned).expression.bind fun _ _ _ _ tracedValue => .pure tracedValue
  | var name initializer =>
      have initialized : Leads sources machine
          (Expr.evaluateOption (callWithin rounds depth) initializer)
          fun later value => value.Traced sources later := by
        cases initializer with
        | none => exact .pure trivial
        | some value => exact (part .initializer).expression
      rw [Stmt.execute]
      apply initialized.bind
      intro between value _ _ tracedValue
      exact (leads_define _ tracedValue).bind fun _ _ _ _ _ => .pure trivial
  | whileLoop condition body =>
      rw [Stmt.execute]
      exact (part .loop).loop

theorem sound_statements {statements : List Stmt}
    (part : Parts sources rounds ⟨depth, .statements statements, machine⟩) :
    Leads sources machine (Stmt.executeAll (callWithin rounds depth) rounds statements)
      fun later completion => completion.value.Traced sources later := by
  cases statements with
  | nil =>
      rw [Stmt.executeAll]
      exact .pure trivial
  | cons statement rest =>
      rw [Stmt.executeAll]
      apply (part .firstStatement).statement.bind
      intro between completion done _ tracedValue
      cases completion with
      | finished => exact (part (.otherStatements done)).statements
      | returned value => exact .pure tracedValue

theorem sound_loop {condition : Expr} {body : Stmt} {limit : Nat}
    (part : Parts sources rounds ⟨depth, .loop condition body limit, machine⟩) :
    Leads sources machine
      (repeatWhile (condition.test (callWithin rounds depth))
        (body.execute (callWithin rounds depth) rounds) limit)
      fun later completion => completion.value.Traced sources later := by
  cases limit with
  | zero => exact .throw _
  | succ limit =>
      rw [repeatWhile]
      apply (part .loopCondition).test.bind
      intro between holds done _ _
      cases holds with
      | false => exact .pure trivial
      | true =>
          apply (part (.loopBody done)).statement.bind
          intro later completion done' _ tracedValue
          cases completion with
          | finished => exact (part (.loopRest done done')).loop
          | returned value => exact .pure tracedValue

theorem sound_call {paren : Occurrence} {callee : Value}
    (traced : Execution.Traced sources rounds ⟨depth, .call paren callee arguments, machine⟩)
    (part : Parts sources rounds ⟨depth, .call paren callee arguments, machine⟩) :
    Leads sources machine (callWithin rounds depth paren callee arguments)
      fun later value => value.Traced sources later := by
  rcases traced.task with ⟨tracedCallee, tracedArguments⟩
  cases depth with
  | zero =>
      rw [callWithin]
      exact (leads_checkCall _ _ _).bind fun _ _ _ _ _ => .throw _
  | succ depth =>
      rw [callWithin]
      apply (leads_checkCall _ _ _).bind
      rintro _ _ checked - rfl
      apply leads_callValue tracedCallee tracedArguments
      · rintro identity closure rfl
        exact (part (.function checked)).closure
      · rintro description method object between initializer reached rfl made found bound
        exact (part (.construct checked made found bound)).closure

theorem sound_closure {called : Closure}
    (traced : Execution.Traced sources rounds ⟨depth, .closure called arguments, machine⟩)
    (part : Parts sources rounds ⟨depth, .closure called arguments, machine⟩) :
    Leads sources machine
      (callClosure (Stmt.executeAll (callWithin rounds depth) rounds) called arguments)
      fun later value => value.Traced sources later := by
  rw [Names.callClosure_eq]
  apply (leads_parameterFrame traced.task.1 traced.task.2).bind
  intro between frame entered _ exists_
  apply (leads_within exists_ (part (.body entered)).statements).bind
  intro later completion _ _ tracedValue
  split
  · exact (leads_valueIn _ "this").imp fun _ _ _ found => found.1 ▸ found.2
  · exact .pure tracedValue

theorem sound {execution : Execution} :
    execution.Traced sources rounds → execution.Sound sources rounds := by
  apply @Execution.induction rounds _ _ execution
  intro whole parts traced
  have part : Parts sources rounds whole :=
    fun executes => parts _ executes (traced.executes (parts _) executes)
  cases whole with
  | mk depth task machine =>
      cases task with
      | expression => exact sound_expression part
      | expressions => exact sound_expressions part
      | statement => exact traced.sound_statement part
      | statements => exact sound_statements part
      | loop => exact sound_loop part
      | call => exact traced.sound_call part
      | closure => exact traced.sound_closure part

end Execution.Traced

end LoxLang
