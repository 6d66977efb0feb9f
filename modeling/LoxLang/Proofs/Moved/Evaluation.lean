import LoxLang.Machine.Calls
import LoxLang.Proofs.Moved.Machine

/-! # Programs with moved words do the same

Step by step, expression by expression, statement by statement and call by call.
-/

namespace LoxLang.Moved

open Comparison

variable {setting : Setting}

/-! ## Objects, output and clock -/

section Objects

theorem follows_newIdentity :
    setting.Follows Action.newIdentity Action.newIdentity
      fun identity identity' => identity' = identity := by
  intro machine machine' holds
  have identities : machine'.identities = machine.identities :=
    Setting.Holds.identities holds
  have holds' : setting.comparison.Holds ()
      { machine with identities := machine.identities + 1 }
      { machine' with identities := machine'.identities + 1 } :=
    { holds with identities := by rw [identities] }
  exact ends_ok holds' identities

theorem follows_newObject {description description' : Class}
    (classes : setting.Classes description description') :
    setting.Follows (Action.newObject description) (Action.newObject description')
      setting.Values := by
  intro machine machine' holds
  have count : machine'.objects.size = machine.objects.size :=
    Setting.Holds.objectCount holds
  have holds' : setting.comparison.Holds ()
      { machine with objects := machine.objects.push Bindings.empty }
      { machine' with objects := machine'.objects.push Bindings.empty } :=
    { holds with
      objects := by
        intro object
        simp only [Array.getElem?_push, count]
        split
        · exact .some .empty
        · exact Setting.Holds.objects holds object
      objectCount := by simp [count] }
  have values : setting.Values (.object machine.objects.size description)
      (.object machine'.objects.size description') := by
    rw [count]
    exact .object classes
  exact ends_ok holds' values

theorem follows_field? (object : Nat) (name : String) :
    setting.Follows (Action.field? object name) (Action.field? object name)
      (Option.Rel setting.Values) := by
  intro machine machine' holds
  apply ends_ok holds
  rcases rel_cases (Setting.Holds.objects holds object) with
      ⟨left, right⟩ | ⟨_, _, left, right, fields⟩ <;> rw [left, right]
  · exact .none
  · exact fields.get? name

theorem follows_setField (object : Nat) (name : String) {value value' : Value}
    (values : setting.Values value value') :
    setting.Follows (Action.setField object name value)
      (Action.setField object name value')
      fun _ _ => True := by
  intro machine machine' holds
  have holds' : setting.comparison.Holds ()
      { machine with objects := machine.objects.modify object (·.bind name value) }
      { machine' with objects := machine'.objects.modify object (·.bind name value') } :=
    { holds with
      objects := by
        intro other
        simp only [Array.getElem?_modify]
        split
        · rcases rel_cases (Setting.Holds.objects holds other) with
              ⟨left, right⟩ | ⟨_, _, left, right, fields⟩ <;> rw [left, right]
          · exact .none
          · exact .some (fields.bind name values)
        · exact Setting.Holds.objects holds other
      objectCount := by simp [Setting.Holds.objectCount holds] }
  exact ends_ok holds' trivial

theorem follows_print (text : String) :
    setting.Follows (Action.print text) (Action.print text) fun _ _ => True := by
  intro machine machine' holds
  have holds' : setting.comparison.Holds ()
      { machine with printed := machine.printed.push text }
      { machine' with printed := machine'.printed.push text } :=
    { holds with
      printed := by simp [Setting.Holds.printed holds] }
  exact ends_ok holds' trivial

theorem follows_readClock :
    setting.Follows Action.readClock Action.readClock fun seconds seconds' =>
      seconds' = seconds := by
  intro machine machine' holds
  have clock : machine'.clock = machine.clock := Setting.Holds.clock holds
  have holds' : setting.comparison.Holds () { machine with clock := machine.clock.tick }
      { machine' with clock := machine'.clock.tick } :=
    { holds with clock := by rw [clock] }
  exact ends_ok holds' (by rw [clock])

end Objects

/-! ## Methods -/

section Methods

variable {description description' : Class} {this this' value value' : Value}

theorem follows_bindThis {method method' : Closure}
    (methods : setting.Closures method method') (objects : setting.Values this this') :
    setting.Follows (Action.bindThis method this) (Action.bindThis method' this')
      fun bound bound' => setting.Closures bound bound' := by
  unfold Action.bindThis
  rw [methods.frame]
  apply (follows_newFrame method.frame).bind
  rintro _ _ frame - rfl
  apply (follows_defineIn frame "this" objects).bind
  exact fun _ _ _ _ _ => .pure ⟨methods.routine, rfl, methods.isInitializer,
    methods.known⟩

theorem follows_method (name : Occurrence)
    (classes : setting.Classes description description')
    (objects : setting.Values this this') :
    setting.Follows (Action.method description name this)
      (Action.method description' (setting.move name) this') setting.Values := by
  unfold Action.method
  rw [setting.same.lexeme]
  rcases rel_cases (classes.findMethod? name.lexeme) with
      ⟨left, right⟩ | ⟨_, _, left, right, methods⟩ <;> rw [left, right]
  · exact .fail rfl _
  · unfold Action.boundMethod
    apply (follows_bindThis methods objects).bind
    intro _ bound bound' _ closures
    apply follows_newIdentity.bind
    rintro _ _ identity - rfl
    exact .pure (.function closures)

theorem follows_property (name : Occurrence) (values : setting.Values value value') :
    setting.Follows (Action.property value name)
      (Action.property value' (setting.move name))
      setting.Values := by
  unfold Action.property
  cases id values with
  | @object identity _ _ classes =>
      rw [setting.same.lexeme]
      apply (follows_field? identity name.lexeme).bind
      intro _ found found' _ fields
      rcases rel_cases fields with ⟨rfl, rfl⟩ | ⟨_, _, rfl, rfl, value⟩
      · exact follows_method name classes values
      · exact .pure value
  | nil | bool | number | string | function | native | classValue => exact .fail rfl _

theorem follows_superMethod {keyword : Occurrence} (known : keyword.place < setting.limit)
    (name : Occurrence) :
    setting.Follows (Action.superMethod keyword name)
      (Action.superMethod (setting.move keyword) (setting.move name)) setting.Values := by
  rw [Action.superMethod]
  apply (follows_distanceOf known).bind
  rintro _ _ distance - rfl
  cases distance with
  | none => exact .defect trivial _
  | some distance =>
      apply (follows_localValue distance "super").bind
      intro _ superclass superclass' _ superclasses
      apply (follows_localValue (distance - 1) "this").bind
      intro _ this this' _ objects
      cases superclasses with
      | classValue classes => exact follows_method name classes objects
      | nil | bool | number | string | function | native | object =>
        exact .defect trivial _

end Methods

/-! ## Declarations -/

section Declarations

theorem follows_declareFunction {routine : Routine}
    (known : setting.Knows routine.references) :
    setting.Follows (Action.declareFunction routine)
      (Action.declareFunction (routine.map setting.move)) fun _ _ => True := by
  rw [Action.declareFunction]
  apply follows_currentFrame.bind
  rintro _ _ frame - rfl
  apply follows_newIdentity.bind
  rintro _ _ identity - rfl
  rw [Routine.name_map, setting.same.lexeme]
  exact follows_define routine.name.lexeme (.function ⟨rfl, rfl, rfl, known⟩)

theorem follows_superclass {clause : Option Occurrence}
    (known : ∀ name ∈ clause, name.place < setting.limit) :
    setting.Follows (Action.superclass clause)
      (Action.superclass (clause.map setting.move))
      (Option.Rel setting.Classes) := by
  cases clause with
  | none => exact .pure .none
  | some name =>
      rw [Option.map_some, Action.superclass, Action.superclass]
      apply (follows_read (known name rfl)).bind
      intro _ found found' _ values
      cases values with
      | classValue classes => exact .pure (.some classes)
      | nil | bool | number | string | function | native | object => exact .fail rfl _

theorem follows_methodFrame {superclass superclass' : Option Class}
    (classes : Option.Rel setting.Classes superclass superclass') :
    setting.Follows (Action.methodFrame superclass) (Action.methodFrame superclass')
      fun frame frame' => frame' = frame := by
  rw [Action.methodFrame]
  apply follows_currentFrame.bind
  rintro _ _ frame - rfl
  cases classes with
  | none => exact .pure rfl
  | some classes =>
      apply (follows_newFrame frame).bind
      rintro _ _ inner - rfl
      apply (follows_defineIn inner "super" (.classValue classes)).bind
      exact fun _ _ _ _ _ => .pure rfl

theorem methodTable_related (frame : FrameId) {methods : List Routine}
    (known : setting.Knows (Routine.referencesOfAll methods)) :
    Bindings.Related setting.Closures (Class.methodTable frame methods)
      (Class.methodTable frame (Routine.mapAll setting.move methods)) := by
  have step : ∀ table table' : Bindings Closure,
      Bindings.Related setting.Closures table table' →
      Bindings.Related setting.Closures
        (methods.foldl (fun table method =>
          table.bind method.name.lexeme ⟨method, frame, method.isNamedInit⟩) table)
        ((Routine.mapAll setting.move methods).foldl (fun table method =>
          table.bind method.name.lexeme ⟨method, frame, method.isNamedInit⟩) table') := by
    induction methods with
    | nil => exact fun _ _ tables => tables
    | cons method methods induction =>
        intro table table' tables
        rcases List.forall_mem_append.mp known with ⟨knownFirst, knownRest⟩
        apply induction knownRest _ _
        simp only [Routine.name_map, setting.same.lexeme,
          Routine.isNamedInit_map setting.same]
        exact tables.bind _ ⟨rfl, rfl, rfl, knownFirst⟩
  exact step _ _ .empty

theorem follows_declareClass (name : Occurrence) {clause : Option Occurrence}
    {methods : List Routine} (knownClause : ∀ name ∈ clause, name.place < setting.limit)
    (known : setting.Knows (Routine.referencesOfAll methods)) :
    setting.Follows (Action.declareClass name clause methods)
      (Action.declareClass (setting.move name) (clause.map setting.move)
        (Routine.mapAll setting.move methods)) fun _ _ => True := by
  unfold Action.declareClass
  rw [setting.same.lexeme]
  apply (follows_superclass knownClause).bind
  intro _ superclass superclass' _ classes
  apply (follows_define name.lexeme .nil).bind
  intro _ _ _ _ _
  apply (follows_methodFrame classes).bind
  rintro _ _ frame - rfl
  apply follows_newIdentity.bind
  rintro _ _ identity - rfl
  refine follows_define name.lexeme (.classValue ?_)
  have tables := methodTable_related frame known
  cases classes with
  | none => exact .root tables
  | some classes => exact .derived classes tables

end Declarations

/-! ## Expressions -/

def CallsFollow (setting : Setting) (call call' : Caller) : Prop :=
  ∀ paren callee callee' arguments arguments', setting.Values callee callee' →
    List.Forall₂ setting.Values arguments arguments' →
      setting.Follows (call paren callee arguments)
        (call' (setting.move paren) callee' arguments')
        setting.Values

section Expressions

variable {call call' : Caller}

mutual

theorem follows_evaluate (calls : CallsFollow setting call call') :
    ∀ expression : Expr, setting.Knows expression.references →
      setting.Follows (expression.evaluate call)
        ((expression.map setting.move).evaluate call') setting.Values
  | .assign name value, known => by
      rw [Expr.map, Expr.evaluate, Expr.evaluate]
      rcases List.forall_mem_cons.mp known with ⟨knownName, known⟩
      apply (follows_evaluate calls value known).bind
      intro _ result result' _ values
      apply (follows_assign knownName values).bind
      exact fun _ _ _ _ _ => .pure values
  | .binary left operator word right, known => by
      rw [Expr.map, Expr.evaluate, Expr.evaluate]
      rcases List.forall_mem_append.mp known with ⟨knownLeft, knownRight⟩
      apply (follows_evaluate calls left knownLeft).bind
      intro _ value value' _ lefts
      apply (follows_evaluate calls right knownRight).bind
      intro _ other other' _ rights
      exact Action.ofOperator_follows rfl (operator.apply_related lefts rights)
        fun _ _ values => values
  | .call callee paren arguments, known => by
      rw [Expr.map, Expr.evaluate, Expr.evaluate]
      rcases List.forall_mem_append.mp known with ⟨knownCallee, knownArguments⟩
      apply (follows_evaluate calls callee knownCallee).bind
      intro _ value value' _ callees
      apply (follows_evaluateAll calls arguments knownArguments).bind
      exact fun _ _ _ _ arguments => calls _ _ _ _ _ callees arguments
  | .get object name, known => by
      rw [Expr.map, Expr.evaluate, Expr.evaluate]
      apply (follows_evaluate calls object known).bind
      exact fun _ _ _ _ values => follows_property name values
  | .grouping inner, known => by
      rw [Expr.map, Expr.evaluate, Expr.evaluate]
      exact follows_evaluate calls inner known
  | .literal value, _ => by
      rw [Expr.map, Expr.evaluate, Expr.evaluate]
      exact .pure (.literal value)
  | .logical left operator word right, known => by
      rw [Expr.map, Expr.evaluate, Expr.evaluate]
      rcases List.forall_mem_append.mp known with ⟨knownLeft, knownRight⟩
      apply (follows_evaluate calls left knownLeft).bind
      intro _ value value' _ lefts
      rw [operator.decidedBy_related lefts]
      split
      · exact .pure lefts
      · exact follows_evaluate calls right knownRight
  | .set object name value, known => by
      rw [Expr.map, Expr.evaluate, Expr.evaluate]
      rcases List.forall_mem_append.mp known with ⟨knownObject, knownValue⟩
      apply (follows_evaluate calls object knownObject).bind
      intro _ found found' _ objects
      cases objects with
      | @object identity _ _ classes =>
          apply (follows_evaluate calls value knownValue).bind
          intro _ result result' _ values
          rw [setting.same.lexeme]
          apply (follows_setField identity name.lexeme values).bind
          exact fun _ _ _ _ _ => .pure values
      | nil | bool | number | string | function | native | classValue => exact .fail rfl _
  | .super keyword method, known => by
      rw [Expr.map, Expr.evaluate, Expr.evaluate]
      exact follows_superMethod (known _ (List.mem_singleton_self _)) method
  | .this keyword, known => by
      rw [Expr.map, Expr.evaluate, Expr.evaluate]
      exact follows_read (known _ (List.mem_singleton_self _))
  | .unary operator word right, known => by
      rw [Expr.map, Expr.evaluate, Expr.evaluate]
      apply (follows_evaluate calls right known).bind
      intro _ value value' _ values
      exact Action.ofOperator_follows rfl (operator.apply_related values)
        fun _ _ values => values
  | .variable name, known => by
      rw [Expr.map, Expr.evaluate, Expr.evaluate]
      exact follows_read (known _ (List.mem_singleton_self _))

theorem follows_evaluateAll (calls : CallsFollow setting call call') :
    ∀ expressions : List Expr, setting.Knows (Expr.referencesOfAll expressions) →
      setting.Follows (Expr.evaluateAll call expressions)
        (Expr.evaluateAll call' (Expr.mapAll setting.move expressions))
          (List.Forall₂ setting.Values)
  | [], _ => .pure .nil
  | expression :: rest, known => by
      rw [Expr.mapAll, Expr.evaluateAll, Expr.evaluateAll]
      rcases List.forall_mem_append.mp known with ⟨knownFirst, knownRest⟩
      apply (follows_evaluate calls expression knownFirst).bind
      intro _ value value' _ first
      apply (follows_evaluateAll calls rest knownRest).bind
      exact fun _ _ _ _ others => .pure (.cons first others)

end

theorem follows_evaluateOption (calls : CallsFollow setting call call')
    {expression : Option Expr}
    (known : setting.Knows (Expr.referencesOfOption expression)) :
    setting.Follows (Expr.evaluateOption call expression)
      (Expr.evaluateOption call' (expression.map (Expr.map setting.move)))
        setting.Values := by
  cases expression with
  | none => exact .pure .nil
  | some expression => exact follows_evaluate calls expression known

theorem follows_test (calls : CallsFollow setting call call') {condition : Expr}
    (known : setting.Knows condition.references) :
    setting.Follows (condition.test call) ((condition.map setting.move).test call')
      fun holds holds' => holds = holds' := by
  apply (follows_evaluate calls condition known).bind
  exact fun _ _ _ _ values => .pure values.isTruthy

end Expressions

/-! ## Statements -/

section Statements

variable {call call' : Caller} {rounds : Nat}

abbrev Setting.Completions (setting : Setting) : Completion → Completion → Prop :=
  Completion.Related setting.Values

theorem follows_loop {condition condition' : Action Bool} {body body' : Action Completion}
    (conditions : setting.Follows condition condition' fun holds holds' => holds = holds')
    (bodies : setting.Follows body body' setting.Completions) (limit : Nat) :
    setting.Follows (Action.repeatWhile condition body limit)
      (Action.repeatWhile condition' body' limit) setting.Completions := by
  have conditions' : ∀ world : Unit, True →
      setting.comparison.Follows world condition condition'
      fun _ holds holds' => holds = holds' ∧ True :=
    fun _ _ => conditions.weaken fun _ _ _ _ same => ⟨same, trivial⟩
  have bodies' : ∀ world : Unit, True → setting.comparison.Follows world body body'
      fun _ completion completion' => setting.Completions completion completion' ∧
        (completion = .finished → True) :=
    fun _ _ => bodies.weaken fun _ _ _ _ same => ⟨same, fun _ => trivial⟩
  exact (Action.repeatWhile_follows conditions' bodies' limit trivial).weaken
    fun _ _ _ _ both => both.1

mutual

theorem follows_execute (calls : CallsFollow setting call call') :
    ∀ statement : Stmt, setting.Knows statement.references →
      setting.Follows (statement.execute call rounds)
        ((statement.map setting.move).execute call' rounds) setting.Completions
  | .block statements, known => by
      rw [Stmt.map, Stmt.execute, Stmt.execute]
      apply follows_currentFrame.bind
      rintro _ _ outer - rfl
      apply (follows_newFrame outer).bind
      rintro _ _ frame - rfl
      exact follows_within frame (follows_executeAll calls statements known)
  | .classDecl name superclass methods, known => by
      rw [Stmt.map, Stmt.execute, Stmt.execute]
      rcases List.forall_mem_append.mp known with ⟨knownClause, knownMethods⟩
      have knownSuperclass : ∀ name ∈ superclass, name.place < setting.limit := by
        intro name named
        exact knownClause ⟨.variable, name⟩
          (List.mem_map_of_mem (Option.mem_toList.mpr named))
      apply (follows_declareClass name knownSuperclass knownMethods).bind
      exact fun _ _ _ _ _ => .pure .finished
  | .expression inner, known => by
      rw [Stmt.map, Stmt.execute, Stmt.execute]
      apply (follows_evaluate calls inner known).bind
      exact fun _ _ _ _ _ => .pure .finished
  | .function routine, known => by
      rw [Stmt.map, Stmt.execute, Stmt.execute]
      apply (follows_declareFunction known).bind
      exact fun _ _ _ _ _ => .pure .finished
  | .ifThen condition thenBranch none, known => by
      rw [Stmt.map, Stmt.execute, Stmt.execute]
      rcases List.forall_mem_append.mp known with ⟨knownCondition, knownBranch⟩
      apply (follows_test calls knownCondition).bind
      rintro _ holds _ - rfl
      split
      · exact follows_execute calls thenBranch knownBranch
      · exact .pure .finished
  | .ifThen condition thenBranch (some elseBranch), known => by
      rw [Stmt.map, Stmt.execute, Stmt.execute]
      rcases List.forall_mem_append.mp known with ⟨knownFirst, knownElse⟩
      rcases List.forall_mem_append.mp knownFirst with ⟨knownCondition, knownThen⟩
      apply (follows_test calls knownCondition).bind
      rintro _ holds _ - rfl
      split
      · exact follows_execute calls thenBranch knownThen
      · exact follows_execute calls elseBranch knownElse
  | .print inner, known => by
      rw [Stmt.map, Stmt.execute, Stmt.execute]
      apply (follows_evaluate calls inner known).bind
      intro _ value value' _ values
      rw [Setting.Values.text values]
      apply (follows_print value'.text).bind
      exact fun _ _ _ _ _ => .pure .finished
  | .returns _ value, known => by
      rw [Stmt.map, Stmt.execute, Stmt.execute]
      apply (follows_evaluateOption calls known).bind
      exact fun _ _ _ _ values => .pure (.returned values)
  | .var name initializer, known => by
      rw [Stmt.map, Stmt.execute, Stmt.execute]
      apply (follows_evaluateOption calls known).bind
      intro _ value value' _ values
      rw [setting.same.lexeme]
      apply (follows_define name.lexeme values).bind
      exact fun _ _ _ _ _ => .pure .finished
  | .whileLoop condition body, known => by
      rw [Stmt.map, Stmt.execute, Stmt.execute]
      rcases List.forall_mem_append.mp known with ⟨knownCondition, knownBody⟩
      exact follows_loop (follows_test calls knownCondition)
        (follows_execute calls body knownBody) rounds

theorem follows_executeAll (calls : CallsFollow setting call call') :
    ∀ statements : List Stmt, setting.Knows (Stmt.referencesOfAll statements) →
      setting.Follows (Stmt.executeAll call rounds statements)
        (Stmt.executeAll call' rounds (Stmt.mapAll setting.move statements))
          setting.Completions
  | [], _ => .pure .finished
  | statement :: rest, known => by
      rw [Stmt.mapAll, Stmt.executeAll, Stmt.executeAll]
      rcases List.forall_mem_append.mp known with ⟨knownFirst, knownRest⟩
      apply (follows_execute calls statement knownFirst).bind
      rintro _ _ _ - (_ | values)
      · exact follows_executeAll calls rest knownRest
      · exact .pure (.returned values)

end

end Statements

/-! ## Calls -/

section Calls

def RunsFollow (setting : Setting) (run : BodyRunner) : Prop :=
  ∀ statements, setting.Knows (Stmt.referencesOfAll statements) →
    setting.Follows (run statements) (run (Stmt.mapAll setting.move statements))
      setting.Completions

variable {run : BodyRunner} {arguments arguments' : List Value}

theorem follows_callClosure (runs : RunsFollow setting run) {closure closure' : Closure}
    (closures : setting.Closures closure closure')
    (values : List.Forall₂ setting.Values arguments arguments') :
    setting.Follows (Action.callClosure run closure arguments)
      (Action.callClosure run closure' arguments') setting.Values := by
  rcases closure with ⟨⟨name, parameters, body⟩, home, isInitializer⟩
  rcases closures with ⟨sameRoutine, sameFrame, sameKind, known⟩
  unfold Action.callClosure
  rw [sameFrame, sameRoutine, sameKind, Routine.parameters_map, Routine.body_map]
  apply (follows_newFrame home).bind
  rintro _ _ frame - rfl
  apply (follows_defineAll frame values).bind
  intro _ _ _ _ _
  apply (follows_within frame (runs body known)).bind
  intro _ completion completion' _ same
  split
  · exact follows_valueIn _ "this"
  · exact .pure (same.value .nil)

theorem follows_answer {builtIn : Native} (total : builtIn.IsTotal)
    (values : List.Forall₂ setting.Values arguments arguments')
    (lengths : arguments.length = builtIn.arity) :
    setting.Follows (Action.answer builtIn.answer arguments)
      (Action.answer builtIn.answer arguments') setting.Values := by
  unfold Action.answer
  cases given : builtIn.answer with
  | clock =>
      refine .map (follows_readClock.weaken ?_)
      rintro _ _ seconds _ rfl
      exact .number seconds
  | constant value => exact .pure (.literal value)
  | argument index =>
      have bound : index < arguments.length := lengths ▸ total.argument given
      have bound' : index < arguments'.length := values.length_eq ▸ bound
      simp only [List.getElem?_eq_getElem bound, List.getElem?_eq_getElem bound']
      exact .pure (List.Forall₂.get values bound bound')
  | computed compute =>
      have count : (arguments.map Value.literal?).length = builtIn.arity := by
        rw [List.length_map, lengths]
      obtain ⟨value, answered⟩ := total.computed given count
      simp only [← Value.Related.map_literal?_eq values, answered]
      exact .pure (.literal value)

theorem follows_construct (runs : RunsFollow setting run)
    {description description' : Class}
    (classes : setting.Classes description description')
    (values : List.Forall₂ setting.Values arguments arguments') :
    setting.Follows (Action.construct run description arguments)
      (Action.construct run description' arguments') setting.Values := by
  rw [Action.construct]
  apply (follows_newObject classes).bind
  intro _ object object' _ objects
  rw [Class.initializer?, Class.initializer?]
  rcases rel_cases (classes.findMethod? "init") with
      ⟨left, right⟩ | ⟨method, method', left, right, methods⟩ <;> rw [left, right]
  · exact .pure objects
  · apply (follows_bindThis methods objects).bind
    intro _ bound bound' _ closures
    apply (follows_callClosure runs closures values).bind
    exact fun _ _ _ _ _ => .pure objects

theorem follows_callValue (runs : RunsFollow setting run) {callee callee' : Value}
    (callees : setting.Values callee callee')
    (values : List.Forall₂ setting.Values arguments arguments')
    (arity : callee.arity? = some arguments.length) :
    setting.Follows (Action.callValue run callee arguments)
      (Action.callValue run callee' arguments') setting.Values := by
  cases callees with
  | nil | bool | number | string | object => simp [Value.arity?] at arity
  | function closures => exact follows_callClosure runs closures values
  | native total => exact follows_answer total values (Option.some.inj arity).symm
  | classValue classes => exact follows_construct runs classes values

theorem follows_callWithin (rounds : Nat) :
    ∀ depth, CallsFollow setting (callWithin rounds depth) (callWithin rounds depth)
  | 0 => by
      intro paren callee callee' arguments arguments' callees values
      rw [callWithin, callWithin]
      refine (Action.checkCall_follows rfl (Setting.Values.arity? callees)
        values.length_eq).bind ?_
      exact fun _ _ _ _ _ => .fail rfl _
  | depth + 1 => by
      intro paren callee callee' arguments arguments' callees values
      rw [callWithin, callWithin]
      refine (Action.checkCall_follows rfl (Setting.Values.arity? callees)
        values.length_eq).bind ?_
      intro _ _ _ _ arity
      have runs : RunsFollow setting (Stmt.executeAll (callWithin rounds depth) rounds) :=
        fun statements known => follows_executeAll (follows_callWithin rounds depth)
          statements known
      exact follows_callValue runs callees values arity

end Calls

end LoxLang.Moved
