import LoxLang.Proofs.Lexical.Declarations

/-! # Frames and distances follow lexical scope

The machine with frames finds a local name by walking as many frames outward as was
determined before the program ran. It does the same as the machine with cells, expression
by expression, statement by statement and call by call.
-/

namespace LoxLang.Lexical

open Comparison

variable {world : World} {frame : FrameId} {own : Option FrameId} {scopes : Scopes}
    {view : View}

def CallsFollow (call : LoxLang.Caller) (call' : Caller) : Prop :=
  ∀ world frame own paren callee callee' arguments arguments',
    World.Values world callee callee' → List.Forall₂ world.Values arguments arguments' →
      (comparison frame own).Follows world (call paren callee arguments)
        (call' paren callee' arguments') World.Values

theorem values_mono {later : World} {values : List Value} {values' : List (Value View)}
    (same : List.Forall₂ world.Values values values') (grows : world.Grows own later) :
    List.Forall₂ later.Values values values' :=
  same.imp fun _ _ values => World.Values.mono values grows

/-! ## Expressions -/

section Expressions

variable {call : LoxLang.Caller} {call' : Caller}

mutual

theorem evaluate_follows (calls : CallsFollow call call') {world : World}
    {frame : FrameId} {own : Option FrameId} {scopes : Scopes} {view : View}
    (aligned : Aligned world scopes frame view) :
    ∀ expression : Expr, expression.Settled world.settlement scopes →
      (comparison frame own).Follows world (expression.evaluate call)
        (evaluate call' view expression) World.Values
  | .assign name value, ⟨settled, binds, unreserved⟩ => by
      rw [Expr.evaluate, evaluate]
      apply (evaluate_follows calls aligned value settled).bind
      intro grown result result' grows values
      refine (follows_assign (aligned.mono grows) (binds.mono grows.settlement) unreserved
        values).bind ?_
      intro grown' _ _ grows' _
      exact .pure (World.Values.mono values grows')
  | .binary left operator word right, ⟨leftSettled, rightSettled⟩ => by
      rw [Expr.evaluate, evaluate]
      apply (evaluate_follows calls aligned left leftSettled).bind
      intro grown value value' grows lefts
      refine (evaluate_follows calls (aligned.mono grows) right
        (Expr.settled_mono grows.settlement _ _ rightSettled)).bind ?_
      intro grown' other other' grows' rights
      exact Action.ofOperator_follows rfl
        (operator.apply_related (World.Values.mono lefts grows') rights) fun _ _ values =>
          values
  | .call callee paren arguments, ⟨calleeSettled, argumentsSettled⟩ => by
      rw [Expr.evaluate, evaluate]
      apply (evaluate_follows calls aligned callee calleeSettled).bind
      intro grown value value' grows callees
      refine (evaluateAll_follows calls (aligned.mono grows) arguments
        (Expr.settledAll_mono grows.settlement _ _ argumentsSettled)).bind ?_
      intro grown' values values' grows' arguments
      exact calls _ _ _ _ _ _ _ _ (World.Values.mono callees grows') arguments
  | .get object name, settled => by
      rw [Expr.evaluate, evaluate]
      apply (evaluate_follows calls aligned object settled).bind
      exact fun _ _ _ _ values => follows_property values
  | .grouping inner, settled => by
      rw [Expr.evaluate, evaluate]
      exact evaluate_follows calls aligned inner settled
  | .literal value, _ => by
      rw [Expr.evaluate, evaluate]
      exact .pure (.literal value)
  | .logical left operator _ right, ⟨leftSettled, rightSettled⟩ => by
      rw [Expr.evaluate, evaluate]
      apply (evaluate_follows calls aligned left leftSettled).bind
      intro grown value value' grows lefts
      rw [operator.decidedBy_related lefts]
      split
      · exact .pure lefts
      · exact evaluate_follows calls (aligned.mono grows) right
          (Expr.settled_mono grows.settlement _ _ rightSettled)
  | .set object name value, ⟨objectSettled, valueSettled⟩ => by
      rw [Expr.evaluate, evaluate]
      apply (evaluate_follows calls aligned object objectSettled).bind
      intro grown found found' grows objects
      cases objects with
      | object classes =>
          refine (evaluate_follows calls (aligned.mono grows) value
            (Expr.settled_mono grows.settlement _ _ valueSettled)).bind ?_
          intro grown' result result' grows' values
          apply (follows_setField values).bind
          rintro _ _ _ _ rfl
          exact .pure values
      | nil | bool | number | string | function | native | classValue => exact .fail rfl _
  | .super keyword method, reads => by
      rw [Expr.evaluate, evaluate]
      exact follows_superMethod aligned reads
  | .this keyword, ⟨lexeme, binds, complete⟩ => by
      rw [Expr.evaluate, evaluate]
      exact follows_read aligned ⟨binds, by simp [lexeme, complete]⟩
  | .unary operator word right, settled => by
      rw [Expr.evaluate, evaluate]
      apply (evaluate_follows calls aligned right settled).bind
      intro grown value value' grows values
      exact Action.ofOperator_follows rfl (operator.apply_related values)
        fun _ _ values => values
  | .variable name, reads => by
      rw [Expr.evaluate, evaluate]
      exact follows_read aligned reads

theorem evaluateAll_follows (calls : CallsFollow call call') {world : World}
    {frame : FrameId} {own : Option FrameId} {scopes : Scopes} {view : View}
    (aligned : Aligned world scopes frame view) :
    ∀ expressions : List Expr, Expr.SettledAll world.settlement scopes expressions →
      (comparison frame own).Follows world (Expr.evaluateAll call expressions)
        (evaluateAll call' view expressions) fun grown => List.Forall₂ grown.Values
  | [], _ => by
      rw [Expr.evaluateAll, evaluateAll]
      exact .pure .nil
  | expression :: rest, ⟨settled, restSettled⟩ => by
      rw [Expr.evaluateAll, evaluateAll]
      apply (evaluate_follows calls aligned expression settled).bind
      intro grown value value' grows first
      refine (evaluateAll_follows calls (aligned.mono grows) rest
        (Expr.settledAll_mono grows.settlement _ _ restSettled)).bind ?_
      intro grown' values values' grows' others
      exact .pure (.cons (World.Values.mono first grows') others)

end

theorem evaluateOption_follows (calls : CallsFollow call call')
    (aligned : Aligned world scopes frame view) {expression : Option Expr}
    (settled : Expr.SettledOption world.settlement scopes expression) :
    (comparison frame own).Follows world (Expr.evaluateOption call expression)
      (evaluateOption call' view expression) World.Values := by
  cases expression with
  | none => exact .pure .nil
  | some expression => exact evaluate_follows calls aligned expression settled

theorem test_follows (calls : CallsFollow call call')
    (aligned : Aligned world scopes frame view) {condition : Expr}
    (settled : condition.Settled world.settlement scopes) :
    (comparison frame own).Follows world (condition.test call) (test call' view condition)
      fun _ holds holds' => holds = holds' := by
  apply (evaluate_follows calls aligned condition settled).bind
  exact fun _ _ _ _ values => .pure values.isTruthy

end Expressions

/-! ## Statements -/

/-- What holds behind a statement of the scopes: bodies that end alike, and at their end
the names that are declared there. -/
def Behind (scopes : Scopes) (frame : FrameId) (world : World) (completion : Completion)
    (outcome : Completion View × View) : Prop :=
  Completion.Related world.Values completion outcome.1 ∧
    (completion = .finished → Aligned world scopes frame outcome.2 ∧
      Exact world scopes frame)

section Statements

variable {call : LoxLang.Caller} {call' : Caller} {rounds : Nat}

theorem scopesAfter_of_undeclared {statement : Stmt}
    (undeclared : statement.declared? = none) :
    statement.scopesAfter scopes = scopes := by
  rw [Stmt.scopesAfter, undeclared]

theorem branch_follows {statement : Stmt} (aligned : Aligned world scopes frame view)
    (undeclared : statement.declared? = none) {left : LoxLang.Action Completion}
    {right : Action (Completion View × View)}
    (follows : (comparison frame (some frame)).Follows world left right
      (Behind (statement.scopesAfter scopes) frame)) :
    (comparison frame (some frame)).Follows world left
      (do let (completion, _) ← right; pure (completion, view))
        (Behind scopes frame) := by
  apply follows.bind_right
  rintro grown completion ⟨completion', view'⟩ grows ⟨same, finished⟩
  refine .pure ⟨same, fun equal => ⟨aligned.mono grows, ?_⟩⟩
  have exact_ := (finished equal).2
  rwa [scopesAfter_of_undeclared undeclared] at exact_

structure AtLoop (condition : Expr) (body : Stmt) (scopes : Scopes) (frame : FrameId)
    (view : View) (world : World) : Prop where
  aligned : Aligned world scopes frame view
  exact : Exact world scopes frame
  condition : condition.Settled world.settlement scopes
  body : body.Settled world.settlement scopes

theorem loop_follows (calls : CallsFollow call call') {condition : Expr} {body : Stmt}
    (undeclared : body.declared? = none)
    (bodies : ∀ {world}, Aligned world scopes frame view → Exact world scopes frame →
      body.Settled world.settlement scopes →
        (comparison frame (some frame)).Follows world (body.execute call rounds)
          (execute call' rounds view body) (Behind (body.scopesAfter scopes) frame))
    (start : AtLoop condition body scopes frame view world) :
    (comparison frame (some frame)).Follows world
      (Action.repeatWhile (condition.test call) (body.execute call rounds) rounds)
      (Action.repeatWhile (test call' view condition)
        ((·.1) <$> execute call' rounds view body) rounds)
          fun grown completion completion' =>
          Completion.Related grown.Values completion completion' ∧
            (completion = .finished → AtLoop condition body scopes frame view grown) := by
  refine Action.repeatWhile_follows ?_ ?_ rounds start
  · rintro world ⟨aligned, exact_, settled, bodySettled⟩
    apply (follows_ofNone (test_follows calls aligned settled)).weaken
    rintro grown holds holds' - ⟨grows, same⟩
    exact ⟨same, aligned.mono grows, exact_.mono grows aligned.frame_lt nofun,
      Expr.settled_mono grows.settlement _ _ settled,
      Stmt.settled_mono grows.settlement _ _ bodySettled⟩
  · rintro world ⟨aligned, exact_, settled, bodySettled⟩
    rw [map_eq_pure_bind]
    apply (bodies aligned exact_ bodySettled).bind_right
    rintro grown completion ⟨completion', view'⟩ grows ⟨same, finished⟩
    refine .pure ⟨same, fun equal => ?_⟩
    have exact' := (finished equal).2
    rw [scopesAfter_of_undeclared undeclared] at exact'
    exact ⟨aligned.mono grows, exact', Expr.settled_mono grows.settlement _ _ settled,
      Stmt.settled_mono grows.settlement _ _ bodySettled⟩

mutual

theorem execute_follows (calls : CallsFollow call call') {world : World} {frame : FrameId}
    {scopes : Scopes} {view : View} (aligned : Aligned world scopes frame view)
    (exact_ : Exact world scopes frame) :
    ∀ statement : Stmt, statement.Settled world.settlement scopes →
      (comparison frame (some frame)).Follows world (statement.execute call rounds)
        (execute call' rounds view statement)
          (Behind (statement.scopesAfter scopes) frame)
  | .block statements, settled => by
      rw [Stmt.execute, execute]
      refine follows_currentFrame (follows_newFrame
        (follows_within (Nat.lt_succ_self _) ?_))
      refine (executeAll_follows calls aligned.newFrame (Exact.newFrame frame) statements
        settled).bind_right ?_
      intro grown completion completion' inner same
      have grows : world.Grows none grown :=
        ((World.grows_withFrame frame).trans inner).ofNew (Nat.le_refl _)
      exact .pure ⟨same, fun _ => ⟨aligned.mono grows,
        exact_.mono grows aligned.frame_lt nofun⟩⟩
  | .classDecl name superclass methods, ⟨admits, superclassSettled, settled⟩ => by
      rw [Stmt.execute, execute]
      apply (declareClass_follows aligned exact_ admits superclassSettled settled).bind
      exact fun _ _ _ _ both => .pure ⟨.finished, fun _ => both⟩
  | .expression inner, settled => by
      rw [Stmt.execute, execute]
      apply (follows_ofNone (evaluate_follows calls aligned inner settled)).bind
      rintro grown _ _ - ⟨grows, -⟩
      exact .pure ⟨.finished, fun _ => ⟨aligned.mono grows,
        exact_.mono grows aligned.frame_lt nofun⟩⟩
  | .function routine, ⟨admits, settled⟩ => by
      rw [Stmt.execute, execute]
      apply (declareFunction_follows aligned exact_ admits settled).bind
      exact fun _ _ _ _ both => .pure ⟨.finished, fun _ => both⟩
  | .ifThen condition thenBranch none, ⟨settled, undeclared, thenSettled⟩ => by
      rw [Stmt.execute, execute]
      apply (follows_ofNone (test_follows calls aligned settled)).bind
      rintro grown holds _ - ⟨grows, rfl⟩
      have aligned' := aligned.mono grows
      have exact' := exact_.mono grows aligned.frame_lt nofun
      split
      · exact branch_follows aligned' undeclared
          (execute_follows calls aligned' exact' thenBranch
          (Stmt.settled_mono grows.settlement _ _ thenSettled))
      · exact .pure ⟨.finished, fun _ => ⟨aligned', exact'⟩⟩
  | .ifThen condition thenBranch (some elseBranch),
      ⟨settled, ⟨thenUndeclared, thenSettled⟩, elseUndeclared, elseSettled⟩ => by
      rw [Stmt.execute, execute]
      apply (follows_ofNone (test_follows calls aligned settled)).bind
      rintro grown holds _ - ⟨grows, rfl⟩
      have aligned' := aligned.mono grows
      have exact' := exact_.mono grows aligned.frame_lt nofun
      split
      · exact branch_follows aligned' thenUndeclared
          (execute_follows calls aligned' exact'
          thenBranch (Stmt.settled_mono grows.settlement _ _ thenSettled))
      · exact branch_follows aligned' elseUndeclared
          (execute_follows calls aligned' exact'
          elseBranch (Stmt.settled_mono grows.settlement _ _ elseSettled))
  | .print inner, settled => by
      rw [Stmt.execute, execute]
      apply (follows_ofNone (evaluate_follows calls aligned inner settled)).bind
      rintro grown value value' - ⟨grows, values⟩
      rw [values.text]
      apply (follows_print _).bind
      rintro _ _ _ _ rfl
      exact .pure ⟨.finished, fun _ => ⟨aligned.mono grows,
        exact_.mono grows aligned.frame_lt nofun⟩⟩
  | .returns _ value, settled => by
      rw [Stmt.execute, execute]
      apply (evaluateOption_follows calls aligned settled).bind
      exact fun _ _ _ _ values => .pure ⟨.returned values, nofun⟩
  | .var name initializer, ⟨admits, settled⟩ => by
      rw [Stmt.execute, execute]
      apply follows_declare aligned exact_ admits.fresh
      intro later view' grows aligned' exact'
      refine (follows_ofNone (evaluateOption_follows calls aligned'
        (Expr.settledOption_mono grows.settlement _ _ settled))).bind ?_
      rintro grown value value' - ⟨grows', values⟩
      refine (follows_complete (aligned'.mono grows')
        (exact'.mono grows' aligned'.frame_lt nofun)
        (declared_declare _ _) admits.unreserved
        fun _ grows'' _ => World.Values.mono values grows'').bind ?_
      intro grown' _ _ _ both
      rw [Scopes.define_declare] at both
      exact .pure ⟨.finished, fun _ => both⟩
  | .whileLoop condition body, ⟨settled, undeclared, bodySettled⟩ => by
      rw [Stmt.execute, execute]
      refine (loop_follows calls undeclared (fun aligned exact_ settled =>
        execute_follows calls aligned exact_ body settled)
          ⟨aligned, exact_, settled, bodySettled⟩).bind_right ?_
      rintro grown completion completion' _ ⟨same, finished⟩
      exact .pure ⟨same, fun equal => ⟨(finished equal).aligned, (finished equal).exact⟩⟩

theorem executeAll_follows (calls : CallsFollow call call') {world : World}
    {frame : FrameId} {scopes : Scopes} {view : View}
    (aligned : Aligned world scopes frame view) (exact_ : Exact world scopes frame) :
    ∀ statements : List Stmt, Stmt.SettledAll world.settlement scopes statements →
      (comparison frame (some frame)).Follows world
        (Stmt.executeAll call rounds statements)
        (executeAll call' rounds view statements) fun grown =>
          Completion.Related grown.Values
  | [], _ => by
      rw [Stmt.executeAll, executeAll]
      exact .pure .finished
  | statement :: rest, ⟨settled, restSettled⟩ => by
      rw [Stmt.executeAll, executeAll]
      apply (execute_follows calls aligned exact_ statement settled).bind
      rintro grown completion ⟨completion', view'⟩ grows ⟨same, finished⟩
      cases same with
      | finished =>
          rcases finished rfl with ⟨aligned', exact'⟩
          exact executeAll_follows calls aligned' exact' rest
            (Stmt.settledAll_mono grows.settlement _ _ restSettled)
      | returned values => exact .pure (.returned values)

end

end Statements

/-! ## Calls -/

section Calls

variable {rounds : Nat}

def RunsFollow (run : LoxLang.BodyRunner) (run' : BodyRunner) : Prop :=
  ∀ {world : World} {scopes : Scopes} {frame : FrameId} {view : View} (statements : List Stmt),
    Aligned world scopes frame view → Exact world scopes frame →
      Stmt.SettledAll world.settlement scopes statements →
        (comparison frame (some frame)).Follows world (run statements)
          (run' view statements)
          fun grown => Completion.Related grown.Values

theorem bindParameters_follows {current : FrameId} {outer : Scopes} :
    ∀ {names : List Occurrence} {values : List Value} {values' : List (Value View)}
      {world : World} {scope : Scope} {view : View},
      Aligned world (scope :: outer) frame view → Exact world (scope :: outer) frame →
      (names.map (·.lexeme)).Nodup → (∀ name ∈ names, name.lexeme ∉ reservedNames) →
      (∀ name ∈ names, scope.contains name.lexeme = false) →
        values.length = names.length →
      List.Forall₂ world.Values values values' →
        (comparison current (some frame)).Follows world
          (Action.defineAll frame names values)
          (bindParameters view names values') fun grown _ view' =>
            Aligned grown ((names.map (·.lexeme)).foldl Scopes.define (scope :: outer))
              frame view' ∧
              Exact grown ((names.map (·.lexeme)).foldl Scopes.define (scope :: outer))
                frame
  | [], values, values', world, scope, view, aligned, exact_, _, _, _, lengths,
      related => by
      rcases List.length_eq_zero_iff.mp lengths with rfl
      cases related
      exact .pure ⟨aligned, exact_⟩
  | name :: names, [], _, _, _, _, _, _, _, _, _, lengths, _ => by simp at lengths
  | name :: names, value :: values, values', world, scope, view, aligned, exact_,
      distinct, unreserved, fresh, lengths, related => by
      obtain ⟨value', others', same, others, rfl⟩ :
          ∃ value' others', world.Values value value' ∧
          List.Forall₂ world.Values values others' ∧ values' = value' :: others' := by
        cases related with
        | cons same others => exact ⟨_, _, same, others, rfl⟩
      rw [Action.defineAll, bindParameters]
      have isClass : name.lexeme = "super" →
          ∃ description, value = .classValue description :=
        fun reserved => absurd (by simp [reserved, reservedNames])
          (unreserved name (by simp))
      apply (follows_bindNew aligned exact_ (fresh name (by simp)) isClass same).bind
      rintro grown _ cell _ ⟨grows, aligned', exact'⟩
      simp only [List.map_cons, List.nodup_cons] at distinct
      refine bindParameters_follows aligned' exact' distinct.2
        (fun other member => unreserved other (by simp [member])) ?_
          (by simpa using lengths)
        (values_mono others grows)
      intro other member
      have different : name.lexeme ≠ other.lexeme := fun equal =>
        distinct.1 (equal ▸ List.mem_map_of_mem member)
      simp [Bindings.contains_bind, different, fresh other (by simp [member])]

theorem Aligned.this (aligned : Aligned world scopes frame view)
    (bound : scopes.head?.bind (·.get? "this") = some true) :
    ∃ cell, world.cellOf frame "this" = some cell ∧ view.cell? "this" = some cell ∧
      world.Full cell := by
  cases aligned with
  | topLevel => simp at bound
  | inside _ _ here _ =>
      rcases here "this" true bound with ⟨cell, inFrame, inView, full⟩
      exact ⟨cell, inFrame, inView, full rfl⟩

theorem callClosure_follows {run : LoxLang.BodyRunner} {run' : BodyRunner}
    (runs : RunsFollow run run') {closure : Closure} {closure' : Closure View}
    {arguments : List Value} {arguments' : List (Value View)}
    (functions : world.Functions closure closure')
    (related : List.Forall₂ world.Values arguments arguments')
    (lengths : arguments.length = closure.arity) :
    (comparison frame own).Follows world (Action.callClosure run closure arguments)
      (callClosure run' closure' arguments') World.Values := by
  rcases closure with ⟨⟨name, parameters, body⟩, home, isInitializer⟩
  rcases closure' with ⟨_, home', _⟩
  rcases functions with ⟨rfl, rfl, scopes, aligned, settled, this⟩
  rcases settled with ⟨⟨distinct, unreserved⟩, bodySettled⟩
  unfold Action.callClosure callClosure
  have grows : world.Grows none (world.withFrame home) := World.grows_withFrame home
  apply follows_newFrame
  refine (bindParameters_follows aligned.newFrame (Exact.newFrame _) distinct unreserved
    (fun _ _ => rfl) lengths (values_mono related grows)).bind ?_
  rintro grown _ view grows' ⟨aligned', exact'⟩
  have bodyFollows := runs body aligned' exact'
    (Stmt.settledAll_mono grows'.settlement _ _ bodySettled)
  apply (follows_within aligned'.frame_lt bodyFollows).bind
  intro grown' completion completion' grows'' same
  cases isInitializer with
  | false => exact .pure (same.value .nil)
  | true =>
      rcases (aligned.mono grows).this (this rfl) with ⟨cell, inFrame, inView, full⟩
      have later := World.Grows.trans grows' grows''
      simp only [inView, if_true]
      exact (follows_valueIn (later.cellOf inFrame) (later.full full)).weaken
        fun _ _ _ _ both => both.1

theorem answer_follows {builtIn : Native} (total : builtIn.IsTotal)
    {arguments : List Value} {arguments' : List (Value View)}
    (related : List.Forall₂ world.Values arguments arguments')
    (lengths : arguments.length = builtIn.arity) :
    (comparison frame own).Follows world (Action.answer builtIn.answer arguments)
      (answer builtIn.answer arguments') World.Values := by
  unfold Action.answer answer
  cases given : builtIn.answer with
  | clock =>
      refine .map (follows_readClock.weaken ?_)
      rintro _ seconds _ _ rfl
      exact .number seconds
  | constant value => exact .pure (.literal value)
  | argument index =>
      have bound : index < arguments.length := lengths ▸ total.argument given
      have bound' : index < arguments'.length := related.length_eq ▸ bound
      simp only [List.getElem?_eq_getElem bound, List.getElem?_eq_getElem bound']
      exact .pure (List.Forall₂.get related bound bound')
  | computed compute =>
      have count : (arguments.map Value.literal?).length = builtIn.arity := by
        rw [List.length_map, lengths]
      obtain ⟨value, answered⟩ := total.computed given count
      simp only [← Value.Related.map_literal?_eq related, answered]
      exact .pure (.literal value)

theorem construct_follows {run : LoxLang.BodyRunner} {run' : BodyRunner}
    (runs : RunsFollow run run') {description : Class} {description' : Class View}
    {arguments : List Value} {arguments' : List (Value View)}
    (classes : world.Classes description description')
    (related : List.Forall₂ world.Values arguments arguments')
    (lengths : arguments.length = description.arity) :
    (comparison frame own).Follows world (Action.construct run description arguments)
      (construct run' description' arguments') World.Values := by
  unfold Action.construct construct
  apply (follows_newObject classes).bind
  intro grown object object' grows objects
  rw [Class.initializer?, Class.initializer?]
  rcases rel_cases (classes.findMethod? "init") with
      ⟨left, right⟩ | ⟨method, method', left, right, methods⟩ <;> rw [left, right]
  · exact .pure objects
  · apply (follows_bindThis (methods.mono grows) objects).bind
    rintro grown' bound bound' grows' ⟨functions, routine⟩
    have arity : arguments.length = bound.arity := by
      simp only [lengths, Class.arity, Class.initializer?, left, Closure.arity, routine]
    refine (callClosure_follows runs functions
      (values_mono (values_mono related grows) grows') arity).bind ?_
    exact fun _ _ _ grows'' _ =>
      .pure (World.Values.mono (World.Values.mono objects grows') grows'')

theorem callValue_follows {run : LoxLang.BodyRunner} {run' : BodyRunner}
    (runs : RunsFollow run run') {callee : Value} {callee' : Value View}
    {arguments : List Value} {arguments' : List (Value View)}
    (callees : world.Values callee callee')
    (related : List.Forall₂ world.Values arguments arguments')
    (arity : callee.arity? = some arguments.length) :
    (comparison frame own).Follows world (Action.callValue run callee arguments)
      (callValue run' callee' arguments') World.Values := by
  cases callees with
  | nil | bool | number | string | object => simp [Value.arity?] at arity
  | function functions =>
      exact callClosure_follows runs functions related (Option.some.inj arity).symm
  | native total => exact answer_follows total related (Option.some.inj arity).symm
  | classValue classes =>
      exact construct_follows runs classes related (Option.some.inj arity).symm

theorem callWithin_follows (rounds : Nat) :
    ∀ depth, CallsFollow (LoxLang.callWithin rounds depth) (callWithin rounds depth)
  | 0 => by
      intro world frame own paren callee callee' arguments arguments' callees related
      rw [LoxLang.callWithin, callWithin]
      apply (Action.checkCall_follows rfl (World.Values.arity? callees)
        related.length_eq).bind
      exact fun _ _ _ _ _ => .fail rfl _
  | depth + 1 => by
      intro world frame own paren callee callee' arguments arguments' callees related
      rw [LoxLang.callWithin, callWithin]
      apply (Action.checkCall_follows rfl (World.Values.arity? callees)
        related.length_eq).bind
      intro grown _ _ grows arity
      have runs : RunsFollow (Stmt.executeAll (LoxLang.callWithin rounds depth) rounds)
          (executeAll (callWithin rounds depth) rounds) :=
        fun statements aligned exact_ settled =>
          executeAll_follows (callWithin_follows rounds depth) aligned exact_ statements
            settled
      exact callValue_follows runs (World.Values.mono callees grows)
        (values_mono related grows) arity

end Calls

end LoxLang.Lexical
