import LoxLang.Proofs.Lexical.Session
import LoxLang.Proofs.Renaming.Machine

/-! # Programs with a renamed declaration do the same

Step by step, expression by expression, statement by statement and call by call, as long
as every name is spelled as it is to be understood where it stands.
-/

namespace LoxLang.Lexical.Respelled

open Comparison

variable {respelling : Respelling} {sight : Sight} {view view' : View}
  {move : Occurrence → Occurrence}

/-! ## Methods -/

section Methods

variable {description description' : Class View} {this this' value value' : Value View}

theorem shadows_bindThis {method method' : Closure View}
    (methods : Closures respelling method method')
    (objects : Values respelling this this') :
    Shadows respelling (bindThis method this) (bindThis method' this')
      fun bound bound' => Closures respelling bound bound' ∧
        bound.arity = method.arity := by
  unfold bindThis
  apply (shadows_newCellWith objects).bind
  intro _ _ cell _ same
  subst same
  obtain ⟨move, sight, lines, routine, fits, views⟩ := methods.home
  have fits' := (Routine.fits_enter respelling move sight _).mpr fits
  have inner := views.enter.extendReserved sight.enter_ne_outside
    (show "this" ∈ reservedNames by decide) cell
  exact .pure ⟨⟨methods.isInitializer, move, sight.enter, lines, routine, fits', inner⟩, rfl⟩

theorem shadows_method {name name' : Occurrence} (line : name'.line = name.line)
    (lexeme : name'.lexeme = name.lexeme)
    (classes : Classes respelling description description')
    (objects : Values respelling this this') :
    Shadows respelling (method description name this) (method description' name' this')
      (Values respelling) := by
  unfold method
  rw [lexeme]
  obtain ⟨left, right⟩ | ⟨found, found', left, right, methods⟩ :=
    rel_cases (classes.findMethod? name.lexeme)
  · rw [left, right]
    exact .fail line _
  · rw [left, right]
    dsimp only
    unfold boundMethod
    apply (shadows_bindThis methods objects).bind
    intro _ bound bound' _ bounds
    apply shadows_newIdentity.bind
    intro _ _ identity _ same
    subst same
    exact .pure (.function bounds.1)

theorem shadows_property {name name' : Occurrence} (line : name'.line = name.line)
    (lexeme : name'.lexeme = name.lexeme) (values : Values respelling value value') :
    Shadows respelling (property value name) (property value' name')
      (Values respelling) := by
  unfold property
  cases id values with
  | @object identity _ _ classes =>
      rw [lexeme]
      apply (shadows_field? identity name.lexeme).bind
      intro _ found found' _ fields
      cases fields with
      | none => exact shadows_method line lexeme classes values
      | some value => exact .pure value
  | nil | bool | number | string | function | native | classValue => exact .fail line _

theorem shadows_superMethod {name name' : Occurrence}
    (views : Views respelling sight view view') (line : name'.line = name.line)
    (lexeme : name'.lexeme = name.lexeme) :
    Shadows respelling (superMethod view name) (superMethod view' name')
      (Values respelling) := by
  unfold superMethod
  rw [views.cell?_reserved (by decide), views.cell?_reserved (by decide)]
  cases view.cell? "super" with
  | none => exact .defect _ _
  | some superCell =>
      cases view.cell? "this" with
      | none => exact .defect _ _
      | some thisCell =>
          apply (shadows_valueIn superCell "super" "super").bind
          intro _ superclass superclass' _ superclasses
          apply (shadows_valueIn thisCell "this" "this").bind
          intro _ this this' _ objects
          cases superclasses with
          | classValue classes => exact shadows_method line lexeme classes objects
          | nil | bool | number | string | function | native | object =>
            exact .defect _ _

end Methods

/-! ## Declarations -/

section Declarations

variable (lines : ∀ word, (move word).line = word.line)

include lines

theorem shadows_declareFunction (views : Views respelling sight view view')
    {routine : Routine} (declares : sight.Declares respelling move routine.name)
    (fits : routine.Fits respelling move (sight.after respelling move routine.name)) :
    Shadows respelling (declareFunction view routine)
      (declareFunction view' (routine.map move))
      (Views respelling (sight.after respelling move routine.name)) := by
  unfold declareFunction
  rw [Routine.name_map]
  apply (shadows_declare views declares).bind
  intro _ inner inner' _ behind
  apply shadows_newIdentity.bind
  intro _ _ identity _ same
  subst same
  have closures : Closures respelling ⟨routine, inner, false⟩
      ⟨routine.map move, inner', false⟩ :=
    ⟨rfl, move, _, lines, rfl, fits, behind⟩
  apply (shadows_define behind declares (.function closures)).bind
  exact fun _ _ _ _ _ => .pure behind

theorem shadows_superclass (views : Views respelling sight view view')
    {clause : Option Occurrence}
    (refers : ∀ name ∈ clause, sight.Refers respelling move name) :
    Shadows respelling (superclass view clause) (superclass view' (clause.map move))
      (Option.Rel (Classes respelling)) := by
  cases clause with
  | none => exact .pure .none
  | some name =>
      rw [Option.map_some, superclass, superclass]
      apply (shadows_read lines views (refers name rfl)).bind
      intro _ found found' _ values
      cases values with
      | classValue classes => exact .pure (.some classes)
      | nil | bool | number | string | function | native | object =>
        exact .fail (lines name) _

omit lines in
theorem shadows_methodView (views : Views respelling sight view view')
    {superclass superclass' : Option (Class View)}
    (classes : Option.Rel (Classes respelling) superclass superclass') :
    Shadows respelling (methodView view superclass) (methodView view' superclass')
      fun inner inner' => ∃ within, (within = sight ∨ within = sight.enter) ∧
        Views respelling within inner inner' := by
  cases classes with
  | none => exact .pure ⟨sight, .inl rfl, views⟩
  | some classes =>
      rw [methodView, methodView]
      apply (shadows_newCellWith (.classValue classes)).bind
      intro _ _ cell _ same
      subst same
      exact .pure ⟨sight.enter, .inr rfl,
        views.enter.extendReserved sight.enter_ne_outside (by decide) cell⟩

theorem methodTable_related (views : Views respelling sight view view')
    {methods : List Routine} (fits : Routine.FitsAll respelling move sight methods) :
    Bindings.Related (Closures respelling) (Class.methodTable view methods)
      (Class.methodTable view' (Routine.mapAll move methods)) := by
  have step : ∀ table table' : Bindings (Closure View),
      Bindings.Related (Closures respelling) table table' →
      Bindings.Related (Closures respelling)
        (methods.foldl (fun table method =>
          table.bind method.name.lexeme ⟨method, view, method.isNamedInit⟩) table)
        ((Routine.mapAll move methods).foldl (fun table method =>
          table.bind method.name.lexeme ⟨method, view', method.isNamedInit⟩) table') := by
    induction methods with
    | nil => exact fun _ _ tables => tables
    | cons method methods induction =>
        intro table table' tables
        obtain ⟨first, rest⟩ := fits
        have name : (move method.name).lexeme = method.name.lexeme := by
          cases method
          exact first.1
        apply induction rest
        simp only [Routine.name_map, Routine.isNamedInit, name]
        exact tables.bind _ ⟨rfl, move, sight, lines, rfl, first, views⟩
  exact step _ _ .empty

theorem shadows_declareClass (views : Views respelling sight view view')
    {name : Occurrence} {clause : Option Occurrence} {methods : List Routine}
    (keeps : name.Keeps move) (declares : sight.Declares respelling move name)
    (refers : ∀ superclass ∈ clause, sight.Refers respelling move superclass)
    (fits : Routine.FitsAll respelling move (sight.after respelling move name) methods) :
    Shadows respelling (declareClass view name clause methods)
      (declareClass view' (move name) (clause.map move) (Routine.mapAll move methods))
      (Views respelling (sight.after respelling move name)) := by
  unfold declareClass
  apply (shadows_superclass lines views refers).bind
  intro _ superclass superclass' _ classes
  apply (shadows_declare views declares).bind
  intro _ _ _ _ behind
  apply (shadows_define behind declares .nil).bind
  intro _ _ _ _ _
  apply (shadows_methodView behind classes).bind
  intro _ inner inner' _ found
  obtain ⟨within, isWithin, views⟩ := found
  apply shadows_newIdentity.bind
  intro _ _ identity _ same
  subst same
  -- Methods of derived classes stand in a view of their own, where the same is known.
  have fits' : Routine.FitsAll respelling move within methods := by
    cases isWithin with
    | inl same => rwa [same]
    | inr same =>
        rw [same]
        exact (Routine.fitsAll_enter respelling move _ methods).mpr fits
  have tables := methodTable_related lines views fits'
  have made : Values respelling
      (.classValue ⟨identity, name.lexeme, superclass, Class.methodTable inner methods⟩)
      (.classValue ⟨identity, (move name).lexeme, superclass',
        Class.methodTable inner' (Routine.mapAll move methods)⟩) := by
    rw [keeps]
    cases classes with
    | none => exact .classValue (.root tables)
    | some classes => exact .classValue (.derived classes tables)
  apply (shadows_define behind declares made).bind
  exact fun _ _ _ _ _ => .pure behind

end Declarations

/-! ## Expressions -/

def CallsShadow (respelling : Respelling) (call call' : Caller) : Prop :=
  ∀ {paren paren' callee callee' arguments arguments'},
    paren'.line = paren.line → Values respelling callee callee' →
      List.Forall₂ (Values respelling) arguments arguments' →
        Shadows respelling (call paren callee arguments) (call' paren' callee' arguments')
          (Values respelling)

section Expressions

theorem shadows_ofOperator {word word' : Occurrence} (line : word'.line = word.line)
    {result result' : Except OperandFault (Value View)}
    (results : Related.Result (Values respelling) result result') :
    Shadows respelling (Action.ofOperator word result) (Action.ofOperator word' result')
      (Values respelling) := by
  have same : (comparison respelling).Words word word' := line
  exact (Action.ofOperator_follows same results fun _ _ values => values).shadows

variable {call call' : Caller}

mutual

theorem shadows_evaluate (calls : CallsShadow respelling call call')
    (lines : ∀ word, (move word).line = word.line) (views : Views respelling sight view view') :
    ∀ expression : Expr, expression.Fits respelling move sight →
      Shadows respelling (evaluate call view expression)
        (evaluate call' view' (expression.map move)) (Values respelling)
  | .assign name value, fits => by
      rw [Expr.map, evaluate, evaluate]
      apply (shadows_evaluate calls lines views value fits.2).bind
      intro _ result result' _ values
      apply (shadows_assign lines views fits.1 values).bind
      exact fun _ _ _ _ _ => .pure values
  | .binary left operator word right, fits => by
      rw [Expr.map, evaluate, evaluate]
      apply (shadows_evaluate calls lines views left fits.1).bind
      intro _ value value' _ lefts
      apply (shadows_evaluate calls lines views right fits.2).bind
      intro _ other other' _ rights
      exact shadows_ofOperator (lines word) (operator.apply_related lefts rights)
  | .call callee paren arguments, fits => by
      rw [Expr.map, evaluate, evaluate]
      apply (shadows_evaluate calls lines views callee fits.1).bind
      intro _ value value' _ callees
      apply (shadows_evaluateAll calls lines views arguments fits.2).bind
      exact fun _ _ _ _ arguments => calls (lines paren) callees arguments
  | .get object name, fits => by
      rw [Expr.map, evaluate, evaluate]
      apply (shadows_evaluate calls lines views object fits.2).bind
      exact fun _ _ _ _ values => shadows_property (lines name) fits.1 values
  | .grouping inner, fits => by
      rw [Expr.map, evaluate, evaluate]
      exact shadows_evaluate calls lines views inner fits
  | .literal value, _ => by
      rw [Expr.map, evaluate, evaluate]
      exact .pure (.literal value)
  | .logical left operator word right, fits => by
      rw [Expr.map, evaluate, evaluate]
      apply (shadows_evaluate calls lines views left fits.1).bind
      intro _ value value' _ lefts
      rw [operator.decidedBy_related lefts]
      split
      · exact .pure lefts
      · exact shadows_evaluate calls lines views right fits.2
  | .set object name value, fits => by
      rw [Expr.map, evaluate, evaluate]
      obtain ⟨keeps, fitsObject, fitsValue⟩ := fits
      apply (shadows_evaluate calls lines views object fitsObject).bind
      intro _ found found' _ objects
      cases objects with
      | @object identity _ _ classes =>
          apply (shadows_evaluate calls lines views value fitsValue).bind
          intro _ result result' _ values
          rw [keeps]
          apply (shadows_setField identity name.lexeme values).bind
          exact fun _ _ _ _ _ => .pure values
      | nil | bool | number | string | function | native | classValue =>
        exact .fail (lines name) _
  | .super keyword method, fits => by
      rw [Expr.map, evaluate, evaluate]
      exact shadows_superMethod views (lines method) fits.2
  | .this keyword, fits => by
      rw [Expr.map, evaluate, evaluate]
      exact shadows_read lines views fits
  | .unary operator word right, fits => by
      rw [Expr.map, evaluate, evaluate]
      apply (shadows_evaluate calls lines views right fits).bind
      intro _ value value' _ values
      exact shadows_ofOperator (lines word) (operator.apply_related values)
  | .variable name, fits => by
      rw [Expr.map, evaluate, evaluate]
      exact shadows_read lines views fits

theorem shadows_evaluateAll (calls : CallsShadow respelling call call')
    (lines : ∀ word, (move word).line = word.line) (views : Views respelling sight view view') :
    ∀ expressions : List Expr, Expr.FitsAll respelling move sight expressions →
      Shadows respelling (evaluateAll call view expressions)
        (evaluateAll call' view' (Expr.mapAll move expressions))
        (List.Forall₂ (Values respelling))
  | [], _ => .pure .nil
  | expression :: rest, fits => by
      rw [Expr.mapAll, evaluateAll, evaluateAll]
      apply (shadows_evaluate calls lines views expression fits.1).bind
      intro _ value value' _ first
      apply (shadows_evaluateAll calls lines views rest fits.2).bind
      exact fun _ _ _ _ others => .pure (.cons first others)

end

theorem shadows_evaluateOption (calls : CallsShadow respelling call call')
    (lines : ∀ word, (move word).line = word.line) (views : Views respelling sight view view')
    {expression : Option Expr}
    (fits : Expr.FitsOption respelling move sight expression) :
    Shadows respelling (evaluateOption call view expression)
      (evaluateOption call' view' (expression.map (Expr.map move)))
      (Values respelling) := by
  cases expression with
  | none => exact .pure .nil
  | some expression => exact shadows_evaluate calls lines views expression fits

theorem shadows_test (calls : CallsShadow respelling call call')
    (lines : ∀ word, (move word).line = word.line) (views : Views respelling sight view view')
    {condition : Expr} (fits : condition.Fits respelling move sight) :
    Shadows respelling (test call view condition)
      (test call' view' (condition.map move)) fun holds holds' => holds = holds' := by
  apply (shadows_evaluate calls lines views condition fits).bind
  exact fun _ _ _ _ values => .pure values.isTruthy

end Expressions

/-! ## Statements -/

section Statements

variable {call call' : Caller} {rounds : Nat}

abbrev Completions (respelling : Respelling) : Completion View → Completion View → Prop :=
  Completion.Related (Values respelling)

def Ended (respelling : Respelling) (sight : Sight)
    (ended ended' : Completion View × View) : Prop :=
  Completions respelling ended.1 ended'.1 ∧ Views respelling sight ended.2 ended'.2

mutual

theorem shadows_execute (calls : CallsShadow respelling call call')
    (lines : ∀ word, (move word).line = word.line) :
    ∀ {sight view view'}, Views respelling sight view view' →
      ∀ statement : Stmt, statement.Fits respelling move sight →
      Shadows respelling (execute call rounds view statement)
        (execute call' rounds view' (statement.map move))
        (Ended respelling (statement.sightAfter respelling move sight))
  | _, _, _, views, .block statements, fits => by
      rw [Stmt.map, execute, execute]
      apply (shadows_executeAll calls lines views.enter statements fits).bind
      exact fun _ _ _ _ completions => .pure ⟨completions, views⟩
  | _, _, _, views, .classDecl name superclass methods, fits => by
      rw [Stmt.map, execute, execute]
      obtain ⟨⟨keeps, declares⟩, refers, fits⟩ := fits
      apply (shadows_declareClass lines views keeps declares refers fits).bind
      exact fun _ _ _ _ behind => .pure ⟨.finished, behind⟩
  | _, _, _, views, .expression inner, fits => by
      rw [Stmt.map, execute, execute]
      apply (shadows_evaluate calls lines views inner fits).bind
      exact fun _ _ _ _ _ => .pure ⟨.finished, views⟩
  | _, _, _, views, .function routine, fits => by
      rw [Stmt.map, execute, execute]
      apply (shadows_declareFunction lines views fits.1 fits.2).bind
      exact fun _ _ _ _ behind => .pure ⟨.finished, behind⟩
  | _, _, _, views, .ifThen condition thenBranch none, fits => by
      rw [Stmt.map, execute, execute]
      apply (shadows_test calls lines views fits.1).bind
      intro _ holds _ _ same
      subst same
      split
      · apply (shadows_execute calls lines views thenBranch fits.2).bind
        exact fun _ _ _ _ ended => .pure ⟨ended.1, views⟩
      · exact .pure ⟨.finished, views⟩
  | _, _, _, views, .ifThen condition thenBranch (some elseBranch), fits => by
      rw [Stmt.map, execute, execute]
      obtain ⟨fitsCondition, fitsThen, fitsElse⟩ := fits
      apply (shadows_test calls lines views fitsCondition).bind
      intro _ holds _ _ same
      subst same
      split
      · apply (shadows_execute calls lines views thenBranch fitsThen).bind
        exact fun _ _ _ _ ended => .pure ⟨ended.1, views⟩
      · apply (shadows_execute calls lines views elseBranch fitsElse).bind
        exact fun _ _ _ _ ended => .pure ⟨ended.1, views⟩
  | _, _, _, views, .print inner, fits => by
      rw [Stmt.map, execute, execute]
      apply (shadows_evaluate calls lines views inner fits).bind
      intro _ value value' _ values
      rw [Values.text values]
      apply (shadows_print value'.text).bind
      exact fun _ _ _ _ _ => .pure ⟨.finished, views⟩
  | _, _, _, views, .returns _ value, fits => by
      rw [Stmt.map, execute, execute]
      apply (shadows_evaluateOption calls lines views fits).bind
      exact fun _ _ _ _ values => .pure ⟨.returned values, views⟩
  | _, _, _, views, .var name initializer, fits => by
      rw [Stmt.map, execute, execute]
      obtain ⟨declares, fits⟩ := fits
      apply (shadows_declare views declares).bind
      intro _ _ _ _ behind
      apply (shadows_evaluateOption calls lines behind fits).bind
      intro _ value value' _ values
      apply (shadows_define behind declares values).bind
      exact fun _ _ _ _ _ => .pure ⟨.finished, behind⟩
  | _, _, _, views, .whileLoop condition body, fits => by
      rw [Stmt.map, execute, execute]
      apply (Action.repeatWhile_shadows
        (fun _ => shadows_test calls lines views fits.1) (fun _ => .map
          ((shadows_execute calls lines views body fits.2).weaken
            fun _ _ _ _ ended => ended.1)) rounds).bind
      exact fun _ _ _ _ completions => .pure ⟨completions, views⟩

theorem shadows_executeAll (calls : CallsShadow respelling call call')
    (lines : ∀ word, (move word).line = word.line) :
    ∀ {sight view view'}, Views respelling sight view view' →
      ∀ statements : List Stmt, Stmt.FitsAll respelling move sight statements →
      Shadows respelling (executeAll call rounds view statements)
        (executeAll call' rounds view' (Stmt.mapAll move statements))
        (Completions respelling)
  | _, _, _, _, [], _ => .pure .finished
  | _, _, _, views, statement :: rest, fits => by
      rw [Stmt.mapAll, executeAll, executeAll]
      apply (shadows_execute calls lines views statement fits.1).bind
      intro _ ended ended' _ same
      obtain ⟨completion, behind⟩ := ended
      obtain ⟨completion', behind'⟩ := ended'
      obtain ⟨completions, behinds⟩ := same
      cases completions with
      | finished => exact shadows_executeAll calls lines behinds rest fits.2
      | returned values => exact .pure (.returned values)

end

end Statements

/-! ## Calls -/

section Calls

def RunsShadow (respelling : Respelling) (run : BodyRunner) : Prop :=
  ∀ {move : Occurrence → Occurrence} {sight view view'},
    (∀ word, (move word).line = word.line) → Views respelling sight view view' →
      ∀ statements, Stmt.FitsAll respelling move sight statements →
        Shadows respelling (run view statements) (run view' (Stmt.mapAll move statements))
          (Completions respelling)

variable {run : BodyRunner} {arguments arguments' : List (Value View)}

theorem shadows_bindParameters :
    ∀ {sight view view'}, Views respelling sight view view' → sight ≠ .outside →
      ∀ {names arguments arguments'}, sight.DeclaresAll respelling move names →
        List.Forall₂ (Values respelling) arguments arguments' →
          names.length = arguments.length →
            Shadows respelling (bindParameters view names arguments)
              (bindParameters view' (names.map move) arguments')
              (Views respelling (sight.afterAll respelling move names))
  | _, _, _, views, _, [], _, _, _, .nil, _ => .pure views
  | sight, view, view', views, inside, name :: names, _, _, declares, .cons values others,
    lengths => by
      rw [List.map_cons, bindParameters, bindParameters]
      apply (shadows_newCellWith values).bind
      intro _ _ cell _ same
      subst same
      have extended : Views respelling (sight.after respelling move name) _ _ :=
        views.extend inside (Sight.allows_declare.mp declares.1.allowed)
          declares.1.spelling cell
      exact shadows_bindParameters extended (Sight.declare_ne_outside inside) declares.2
        others (Nat.succ.inj lengths)

theorem shadows_callClosure (runs : RunsShadow respelling run)
    {closure closure' : Closure View} (closures : Closures respelling closure closure')
    (values : List.Forall₂ (Values respelling) arguments arguments')
    (lengths : closure.arity = arguments.length) :
    Shadows respelling (callClosure run closure arguments)
      (callClosure run closure' arguments') (Values respelling) := by
  obtain ⟨⟨name, parameters, body⟩, home, isInitializer⟩ := closure
  obtain ⟨sameKind, move, sight, lines, routine, fits, views⟩ := closures
  obtain ⟨-, declares, fits⟩ := fits
  unfold callClosure
  rw [routine, sameKind, Routine.parameters_map, Routine.body_map]
  apply (shadows_bindParameters views.enter sight.enter_ne_outside declares values
    lengths).bind
  intro _ inner inner' _ inners
  apply (runs lines inners body fits).bind
  intro _ completion completion' _ same
  split
  · rw [views.cell?_reserved (by decide)]
    cases home.cell? "this" with
    | none => exact .defect _ _
    | some cell => exact shadows_valueIn cell "this" "this"
  · exact .pure (same.value .nil)

theorem shadows_answer {builtIn : Native} (total : builtIn.IsTotal)
    (values : List.Forall₂ (Values respelling) arguments arguments')
    (lengths : arguments.length = builtIn.arity) :
    Shadows respelling (answer builtIn.answer arguments)
      (answer builtIn.answer arguments') (Values respelling) := by
  unfold answer
  cases given : builtIn.answer with
  | clock =>
      refine .map (shadows_readClock.weaken ?_)
      intro _ _ seconds _ same
      subst same
      exact .number seconds
  | constant value => exact .pure (.literal value)
  | argument index =>
      have bound : index < arguments.length := lengths ▸ total.argument given
      have bound' : index < arguments'.length := values.length_eq ▸ bound
      simp only [List.getElem?_eq_getElem bound, List.getElem?_eq_getElem bound']
      exact .pure (List.Forall₂.get values bound bound')
  | computed compute =>
      have count : (arguments.map Value.literal?).length = builtIn.arity := by
        rw [List.length_map, lengths]
      obtain ⟨value, answered⟩ := total.computed given count
      simp only [← Value.Related.map_literal?_eq values, answered]
      exact .pure (.literal value)

theorem shadows_construct (runs : RunsShadow respelling run)
    {description description' : Class View}
    (classes : Classes respelling description description')
    (values : List.Forall₂ (Values respelling) arguments arguments')
    (lengths : description.arity = arguments.length) :
    Shadows respelling (construct run description arguments)
      (construct run description' arguments') (Values respelling) := by
  rw [construct]
  apply (shadows_newObject classes).bind
  intro _ object object' _ objects
  rw [Class.arity, Class.initializer?] at lengths
  rw [Class.initializer?, Class.initializer?]
  obtain ⟨left, right⟩ | ⟨method, method', left, right, methods⟩ :=
    rel_cases (classes.findMethod? "init")
  · rw [left, right]
    exact .pure objects
  · rw [left] at lengths
    rw [left, right]
    apply (shadows_bindThis methods objects).bind
    intro _ bound bound' _ bounds
    obtain ⟨closures, arity⟩ := bounds
    apply (shadows_callClosure runs closures values (arity.trans lengths)).bind
    exact fun _ _ _ _ _ => .pure objects

theorem shadows_callValue (runs : RunsShadow respelling run) {callee callee' : Value View}
    (callees : Values respelling callee callee')
    (values : List.Forall₂ (Values respelling) arguments arguments')
    (arity : callee.arity? = some arguments.length) :
    Shadows respelling (callValue run callee arguments)
      (callValue run callee' arguments') (Values respelling) := by
  cases callees with
  | nil | bool | number | string | object => simp [Value.arity?] at arity
  | function closures =>
      exact shadows_callClosure runs closures values (Option.some.inj arity)
  | native total => exact shadows_answer total values (Option.some.inj arity).symm
  | classValue classes =>
      exact shadows_construct runs classes values (Option.some.inj arity)

theorem shadows_checkCall {paren paren' : Occurrence} (line : paren'.line = paren.line)
    {callee callee' : Value View} (callees : Values respelling callee callee')
    (values : List.Forall₂ (Values respelling) arguments arguments') :
    Shadows respelling (Action.checkCall paren callee arguments)
      (Action.checkCall paren' callee' arguments')
      fun _ _ => callee.arity? = some arguments.length := by
  have same : (comparison respelling).Words paren paren' := line
  exact (Action.checkCall_follows same (Values.arity? callees) values.length_eq).shadows

theorem shadows_callWithin (rounds : Nat) :
    ∀ depth, CallsShadow respelling (callWithin rounds depth) (callWithin rounds depth)
  | 0 => by
      intro line callees values
      rw [callWithin, callWithin]
      apply (shadows_checkCall line callees values).bind
      exact fun _ _ _ _ _ => .fail line _
  | depth + 1 => by
      intro line callees values
      rw [callWithin, callWithin]
      apply (shadows_checkCall line callees values).bind
      intro _ _ _ _ arity
      have runs : RunsShadow respelling (executeAll (callWithin rounds depth) rounds) :=
        fun lines views statements fits =>
          shadows_executeAll (shadows_callWithin rounds depth) lines views statements fits
      exact shadows_callValue runs callees values arity

theorem shadows_runProgram (budget : Budget) (lines : ∀ word, (move word).line = word.line)
    (outside : sight = .apart ∨ sight = .outside) :
    ∀ statements : List Stmt, Stmt.FitsAll respelling move sight statements →
      Shadows respelling (runProgram budget statements)
        (runProgram budget (Stmt.mapAll move statements)) fun _ _ => True
  | [], _ => .pure trivial
  | statement :: rest, fits => by
      rw [Stmt.mapAll, runProgram, runProgram]
      have views : Views respelling sight .topLevel .topLevel := by
        cases outside with
        | inl apart => exact apart ▸ .apart _
        | inr outside => exact outside ▸ .topLevel_outside
      have still : statement.sightAfter respelling move sight = sight := by
        rw [Stmt.sightAfter]
        split
        · obtain rfl | rfl := outside <;> rfl
        · rfl
      apply (shadows_execute (shadows_callWithin _ _) lines views statement fits.1).bind
      intro _ _ _ _ _
      exact shadows_runProgram budget lines outside rest (still ▸ fits.2)

end Calls

end LoxLang.Lexical.Respelled
