import LoxLang.Proofs.Names.Actions

/-! # What programs do to names

An expression gives no frame a new name, except the variable in whose initializer it
stands. A statement gives its frame the name that it declares. Blocks and bodies have
frames of their own, so that nothing they declare is left in a frame from before, and a
call gives no frame a new name at all.
-/

namespace LoxLang.Names

open LoxLang.Action

variable {settlement : Settlement} {gains : Gains} {frames : Frames} {current : FrameId}
  {scopes : Scopes}

def CallsKeep (settlement : Settlement) (call : Caller) : Prop :=
  ∀ {frames : Frames} {current : FrameId} (paren : Occurrence) {callee : Value}
    {arguments : List Value}, callee.Sound settlement frames →
      (∀ argument ∈ arguments, argument.Sound settlement frames) →
        Keeps settlement .none frames current (call paren callee arguments)
          fun later value => value.Sound settlement later

/-! ## Expressions -/

section Expressions

variable {call : Caller}

mutual

theorem keeps_evaluate (calls : CallsKeep settlement call) {frames : Frames}
    (covers : scopes.Covers frames current) (usable : scopes.Usable) :
    ∀ expression : Expr, expression.Settled settlement scopes →
      Keeps settlement (begun scopes current) frames current (expression.evaluate call)
        fun later value => value.Sound settlement later
  | .assign name value, ⟨settled, binds, _⟩ => by
      rw [Expr.evaluate]
      apply (keeps_evaluate calls covers usable value settled).bind
      intro middle result grows sound
      apply (keeps_assign (covers.mono grows) usable binds sound).bind
      intro later _ grows' _
      exact .pure (sound.grow grows')
  | .binary left operator word right, ⟨leftSettled, rightSettled⟩ => by
      rw [Expr.evaluate]
      apply (keeps_evaluate calls covers usable left leftSettled).bind
      intro middle _ grows _
      apply (keeps_evaluate calls (covers.mono grows) usable right rightSettled).bind
      intro later _ _ _
      exact keeps_ofOperator word fun _ => BinaryOperator.sound_apply
  | .call callee paren arguments, ⟨calleeSettled, argumentsSettled⟩ => by
      rw [Expr.evaluate]
      apply (keeps_evaluate calls covers usable callee calleeSettled).bind
      intro middle value grows sound
      apply (keeps_evaluateAll calls (covers.mono grows) usable arguments
        argumentsSettled).bind
      intro later values grows' sounds
      exact (calls paren (sound.grow grows') sounds).ofNone
  | .get object name, settled => by
      rw [Expr.evaluate]
      apply (keeps_evaluate calls covers usable object settled).bind
      exact fun _ _ _ sound => keeps_property sound name
  | .grouping inner, settled => by
      rw [Expr.evaluate]
      exact keeps_evaluate calls covers usable inner settled
  | .literal value, _ => by
      rw [Expr.evaluate]
      exact .pure (Value.sound_literal value)
  | .logical left operator _ right, ⟨leftSettled, rightSettled⟩ => by
      rw [Expr.evaluate]
      apply (keeps_evaluate calls covers usable left leftSettled).bind
      intro middle value grows sound
      split
      · exact .pure sound
      · exact keeps_evaluate calls (covers.mono grows) usable right rightSettled
  | .set object name value, ⟨objectSettled, valueSettled⟩ => by
      rw [Expr.evaluate]
      apply (keeps_evaluate calls covers usable object objectSettled).bind
      intro middle found grows _
      cases found with
      | object identity description =>
          apply (keeps_evaluate calls (covers.mono grows) usable value valueSettled).bind
          intro later result _ sound
          apply (keeps_setField identity name.lexeme sound).bind
          rintro _ _ - rfl
          exact .pure sound
      | nil | bool | number | string | function | native | classValue => exact .throw _
  | .super keyword method, _ => by
      rw [Expr.evaluate]
      exact keeps_superMethod keyword method
  | .this keyword, _ => by
      rw [Expr.evaluate]
      exact keeps_read keyword
  | .unary operator word right, settled => by
      rw [Expr.evaluate]
      apply (keeps_evaluate calls covers usable right settled).bind
      intro later _ _ _
      exact keeps_ofOperator word fun _ => UnaryOperator.sound_apply
  | .variable name, _ => by
      rw [Expr.evaluate]
      exact keeps_read name

theorem keeps_evaluateAll (calls : CallsKeep settlement call) {frames : Frames}
    (covers : scopes.Covers frames current) (usable : scopes.Usable) :
    ∀ expressions : List Expr, Expr.SettledAll settlement scopes expressions →
      Keeps settlement (begun scopes current) frames current
        (Expr.evaluateAll call expressions)
        fun later values => ∀ value ∈ values, value.Sound settlement later
  | [], _ => by
      rw [Expr.evaluateAll]
      exact .pure nofun
  | expression :: rest, ⟨settled, restSettled⟩ => by
      rw [Expr.evaluateAll]
      apply (keeps_evaluate calls covers usable expression settled).bind
      intro middle value grows sound
      apply (keeps_evaluateAll calls (covers.mono grows) usable rest restSettled).bind
      intro later values grows' sounds
      exact .pure (List.forall_mem_cons.mpr ⟨sound.grow grows', sounds⟩)

end

theorem keeps_evaluateOption (calls : CallsKeep settlement call)
    (covers : scopes.Covers frames current) (usable : scopes.Usable)
    {expression : Option Expr} (settled : Expr.SettledOption settlement scopes expression) :
    Keeps settlement (begun scopes current) frames current
      (Expr.evaluateOption call expression)
      fun later value => value.Sound settlement later := by
  cases expression with
  | none => exact .pure trivial
  | some expression => exact keeps_evaluate calls covers usable expression settled

theorem begun_of_complete (complete : scopes.Complete) {frame : FrameId} {name : String}
    (gained : begun scopes current frame name) : False := by
  cases scopes with
  | nil => cases gained.2
  | cons scope outer =>
      have incomplete : scope.get? name = some false := of_decide_eq_true gained.2
      exact complete name (by rw [Scopes.state?_cons, incomplete, Option.some_or])

theorem keeps_complete {action : Action α} {post : Frames → α → Prop}
    (complete : scopes.Complete)
    (keeps : Keeps settlement (begun scopes current) frames current action post) :
    Keeps settlement gains frames current action post :=
  keeps.allow fun _ _ _ gained => (begun_of_complete complete gained).elim

theorem keeps_test (calls : CallsKeep settlement call)
    (covers : scopes.Covers frames current) (complete : scopes.Complete) {condition : Expr}
    (settled : condition.Settled settlement scopes) :
    Keeps settlement gains frames current (condition.test call) fun _ _ => True := by
  apply (keeps_complete complete
    (keeps_evaluate calls covers complete.usable condition settled)).bind
  exact fun _ _ _ _ => .pure trivial

end Expressions

/-! ## Statements -/

section Statements

variable {call : Caller} {rounds : Nat}

def declaredBy (statement : Stmt) (frame : FrameId) : Gains := fun gaining name =>
  gaining = frame ∧ ∃ declared ∈ statement.declared?, declared.lexeme = name

def Behind (scopes : Scopes) (settlement : Settlement) (frame : FrameId) (later : Frames)
    (completion : Completion) : Prop :=
  completion.Sound settlement later ∧ (completion = .finished → scopes.Covers later frame)

theorem declaring_of_begun (complete : scopes.Complete) {declared : String}
    {frame : FrameId} {name : String}
    (gained : begun (scopes.declare declared) current frame name) :
    declaring declared current frame name := by
  refine ⟨gained.1, ?_⟩
  cases scopes with
  | nil => cases gained.2
  | cons scope outer =>
      have incomplete : (scope.bind declared false).get? name = some false :=
        of_decide_eq_true gained.2
      rw [Bindings.get?_bind] at incomplete
      split at incomplete
      case isTrue same => exact same.symm
      case isFalse =>
          have before : Scopes.state? (scope :: outer) name = some false := by
            rw [Scopes.state?_cons, incomplete, Option.some_or]
          exact absurd before (complete name)

theorem keeps_block (covers : scopes.Covers frames current) {action : Action α}
    {post : Frames → α → Prop}
    (keeps : ∀ {later frame}, (scopes.nest []).Covers later frame →
      Keeps settlement (.inFrame frame) later frame action post) :
    Keeps settlement gains frames current
      (do
        let frame ← newFrame (← currentFrame)
        within frame action)
      post := by
  apply keeps_currentFrame.bind
  rintro _ _ - ⟨rfl, rfl⟩
  apply Keeps.ofNew
  apply (keeps_newFrame current).bind
  rintro _ frame grows ⟨rfl, rfl⟩
  exact keeps_withinNew (keeps covers.block)

theorem keeps_declaration {statement : Stmt} {name : Occurrence}
    (declares : statement.declared? = some name) {action : Action α}
    {post : Frames → α → Prop}
    (keeps : Keeps settlement (declaring name.lexeme current) frames current action post) :
    Keeps settlement (declaredBy statement current) frames current action post :=
  keeps.allow fun _ _ _ gained => ⟨gained.1, name, declares, gained.2.symm⟩

theorem keeps_branch {statement : Stmt} (undeclared : statement.declared? = none)
    {action : Action Completion}
    (keeps : Keeps settlement (declaredBy statement current) frames current action
      (Behind (statement.scopesAfter scopes) settlement current)) :
    Keeps settlement gains frames current action (Behind scopes settlement current) := by
  rw [Stmt.scopesAfter, undeclared] at keeps
  refine keeps.allow fun _ _ _ gained => ?_
  rcases gained with ⟨-, declared, isDeclared, -⟩
  rw [undeclared] at isDeclared
  cases isDeclared

mutual

theorem keeps_execute (calls : CallsKeep settlement call) {frames : Frames}
    {current : FrameId} {scopes : Scopes} (covers : scopes.Covers frames current)
    (complete : scopes.Complete) :
    ∀ statement : Stmt, statement.Settled settlement scopes →
      Keeps settlement (declaredBy statement current) frames current
        (statement.execute call rounds)
        (Behind (statement.scopesAfter scopes) settlement current)
  | .block statements, settled => by
      rw [Stmt.execute]
      refine (keeps_block covers fun inside =>
        keeps_executeAll calls inside (complete.nest []) statements settled).imp ?_
      exact fun _ _ grows sound => ⟨sound, fun _ => covers.mono grows⟩
  | .classDecl name superclass methods, ⟨_, _, settled⟩ => by
      rw [Stmt.execute]
      have declares : (Stmt.classDecl name superclass methods).declared? = some name := rfl
      apply (keeps_declaration declares
        (keeps_declareClass covers complete settled)).bind
      exact fun _ _ _ covers' => .pure ⟨trivial, fun _ => covers'⟩
  | .expression inner, settled => by
      rw [Stmt.execute]
      apply (keeps_complete complete
        (keeps_evaluate calls covers complete.usable inner settled)).bind
      exact fun _ _ grows _ => .pure ⟨trivial, fun _ => covers.mono grows⟩
  | .function routine, ⟨_, settled⟩ => by
      rw [Stmt.execute]
      have declares : (Stmt.function routine).declared? = some routine.name := rfl
      apply (keeps_declaration declares
        (keeps_declareFunction covers complete settled)).bind
      exact fun _ _ _ covers' => .pure ⟨trivial, fun _ => covers'⟩
  | .ifThen condition thenBranch none, ⟨settled, undeclared, thenSettled⟩ => by
      rw [Stmt.execute]
      apply (keeps_test calls covers complete settled).bind
      intro middle holds grows _
      split
      · exact keeps_branch undeclared
          (keeps_execute calls (covers.mono grows) complete thenBranch thenSettled)
      · exact .pure ⟨trivial, fun _ => covers.mono grows⟩
  | .ifThen condition thenBranch (some elseBranch),
      ⟨settled, ⟨thenUndeclared, thenSettled⟩, elseUndeclared, elseSettled⟩ => by
      rw [Stmt.execute]
      apply (keeps_test calls covers complete settled).bind
      intro middle holds grows _
      split
      · exact keeps_branch thenUndeclared
          (keeps_execute calls (covers.mono grows) complete thenBranch thenSettled)
      · exact keeps_branch elseUndeclared
          (keeps_execute calls (covers.mono grows) complete elseBranch elseSettled)
  | .print inner, settled => by
      rw [Stmt.execute]
      apply (keeps_complete complete
        (keeps_evaluate calls covers complete.usable inner settled)).bind
      intro middle value grows _
      apply (keeps_print value.text).bind
      exact fun _ _ grows' _ =>
        .pure ⟨trivial, fun _ => (covers.mono grows).mono grows'⟩
  | .returns _ value, settled => by
      rw [Stmt.execute]
      apply (keeps_complete complete
        (keeps_evaluateOption calls covers complete.usable settled)).bind
      exact fun _ _ _ sound => .pure ⟨sound, nofun⟩
  | .var name initializer, ⟨admits, settled⟩ => by
      rw [Stmt.execute]
      have declares : (Stmt.var name initializer).declared? = some name := rfl
      have usable := complete.declare admits.unreserved
      have initialized := keeps_evaluateOption calls (covers.declare name.lexeme) usable
        settled
      apply (keeps_declaration declares
        (initialized.allow fun _ _ _ => declaring_of_begun complete)).bind
      intro middle value grows sound
      have defined := keeps_define ((covers.declare name.lexeme).mono grows) fun _ =>
        sound.grow (grows_define name.lexeme value)
      rw [Scopes.define_declare] at defined
      apply (keeps_declaration declares defined).bind
      exact fun _ _ _ covers' => .pure ⟨trivial, fun _ => covers'⟩
  | .whileLoop condition body, ⟨settled, undeclared, bodySettled⟩ => by
      rw [Stmt.execute]
      have tested : ∀ later, scopes.Covers later current →
          Keeps settlement (declaredBy (.whileLoop condition body) current) later current
            (condition.test call) fun latest _ => scopes.Covers latest current := by
        intro later covers'
        apply (keeps_test calls covers' complete settled).imp
        exact fun _ _ grows _ => covers'.mono grows
      exact keeps_repeatWhile tested (fun later covers' =>
        keeps_branch undeclared (keeps_execute calls covers' complete body bodySettled))
          rounds covers

theorem keeps_executeAll (calls : CallsKeep settlement call) {frames : Frames}
    {current : FrameId} {scopes : Scopes} (covers : scopes.Covers frames current)
    (complete : scopes.Complete) :
    ∀ statements : List Stmt, Stmt.SettledAll settlement scopes statements →
      Keeps settlement (.inFrame current) frames current
        (Stmt.executeAll call rounds statements)
        fun later completion => completion.Sound settlement later
  | [], _ => by
      rw [Stmt.executeAll]
      exact .pure trivial
  | statement :: rest, ⟨settled, restSettled⟩ => by
      rw [Stmt.executeAll]
      have first : Keeps settlement (.inFrame current) frames current
          (statement.execute call rounds)
          (Behind (statement.scopesAfter scopes) settlement current) :=
        (keeps_execute calls covers complete statement settled).allow
          fun _ _ _ gained => gained.1
      apply first.bind
      rintro middle completion grows ⟨sound, finished⟩
      cases completion with
      | finished =>
          exact keeps_executeAll calls (finished rfl) (complete.scopesAfter statement) rest
            restSettled
      | returned value => exact .pure sound

end

end Statements

/-! ## Calls -/

section Calls

variable {run : BodyRunner} {arguments : List Value}

def RunsKeep (settlement : Settlement) (run : BodyRunner) : Prop :=
  ∀ {frames : Frames} {current : FrameId} {scopes : Scopes},
    scopes.Covers frames current → scopes.Complete →
      ∀ statements : List Stmt, Stmt.SettledAll settlement scopes statements →
        Keeps settlement (.inFrame current) frames current (run statements)
          fun later completion => completion.Sound settlement later

def parameterFrame (closure : Closure) (arguments : List Value) : Action FrameId := do
  let frame ← newFrame closure.frame
  defineAll frame closure.routine.parameters arguments
  pure frame

theorem callClosure_eq (run : BodyRunner) (closure : Closure) (arguments : List Value) :
    callClosure run closure arguments = (do
      let frame ← parameterFrame closure arguments
      let completion ← within frame (run closure.routine.body)
      if closure.isInitializer then valueIn closure.frame "this"
      else pure completion.value) := by
  simp only [callClosure, parameterFrame, bind_assoc, pure_bind]

theorem keeps_parameterFrame {closure : Closure}
    (covers : scopes.Covers frames closure.frame)
    (lengths : closure.arity = arguments.length)
    (sound : ∀ argument ∈ arguments, argument.Sound settlement frames) :
    Keeps settlement gains frames current (parameterFrame closure arguments)
      fun later frame => frame = frames.size ∧
        (scopes.nest (closure.routine.parameters.map (·.lexeme))).Covers later frame := by
  apply Keeps.ofNew
  apply (keeps_newFrame closure.frame).bind
  rintro _ frame grows ⟨rfl, rfl⟩
  have exists_ : frames.size < (frames.push (some closure.frame)).size := by simp
  have allowed : ∀ name, gains.orFrom frames.size frames.size name :=
    fun _ => .inl (Nat.le_refl _)
  apply (keeps_defineAll allowed exists_ lengths
    fun argument member => (sound argument member).grow grows).bind
  intro later _ grows' has
  have enclosed : later.enclosing? frames.size = some closure.frame := by
    rw [grows'.enclosing _ exists_, Frames.enclosing?_push, if_pos rfl]
  refine .pure ⟨rfl, ((covers.mono grows).mono grows').nest enclosed ?_⟩
  exact List.forall_mem_map.mpr has

theorem keeps_callClosure (runs : RunsKeep settlement run) {closure : Closure}
    (soundClosure : closure.Sound settlement frames)
    (lengths : closure.arity = arguments.length)
    (sound : ∀ argument ∈ arguments, argument.Sound settlement frames) :
    Keeps settlement gains frames current (callClosure run closure arguments)
      fun later value => value.Sound settlement later := by
  rcases soundClosure with ⟨scopes, covers, complete, settled⟩
  rw [callClosure_eq]
  apply Keeps.ofNew
  apply (keeps_parameterFrame covers lengths sound).bind
  rintro later _ grows ⟨rfl, inside⟩
  have executed : Keeps settlement (gains.orFrom frames.size) later current
      (within frames.size (run closure.routine.body)) fun latest completion =>
        completion.Sound settlement latest :=
    keeps_withinNew (runs inside (complete.nest _) _ settled.body)
  apply executed.bind
  intro latest completion _ soundCompletion
  split
  · exact keeps_valueIn closure.frame "this"
  · exact .pure soundCompletion.value

theorem keeps_construct (runs : RunsKeep settlement run) {description : Class}
    (soundClass : description.Sound settlement frames)
    (lengths : description.arity = arguments.length)
    (sound : ∀ argument ∈ arguments, argument.Sound settlement frames) :
    Keeps settlement gains frames current (construct run description arguments)
      fun later value => value.Sound settlement later := by
  apply (keeps_newObject soundClass).bind
  rintro _ object - ⟨rfl, soundObject⟩
  cases found : description.initializer? with
  | none => exact .pure soundObject
  | some method =>
      apply (keeps_bindThis (soundClass "init" method found) soundObject).bind
      rintro middle initializer grows ⟨soundInitializer, same⟩
      have lengths' := (Class.arity_eq found same).symm.trans lengths
      apply (keeps_callClosure runs soundInitializer lengths' fun argument member =>
        (sound argument member).grow grows).bind
      exact fun _ _ grows' _ => .pure ((soundObject.grow grows).grow grows')

theorem keeps_callValue (runs : RunsKeep settlement run) {callee : Value}
    (soundCallee : callee.Sound settlement frames)
    (arity : callee.arity? = some arguments.length)
    (sound : ∀ argument ∈ arguments, argument.Sound settlement frames) :
    Keeps settlement gains frames current (callValue run callee arguments)
      fun later value => value.Sound settlement later := by
  cases callee with
  | native builtIn => exact keeps_answer builtIn.answer sound
  | function identity closure =>
      exact keeps_callClosure runs soundCallee (Option.some.inj arity) sound
  | classValue description =>
      exact keeps_construct runs soundCallee (Option.some.inj arity) sound
  | nil | bool | number | string | object => exact .throw _

theorem callWithin_keeps (rounds : Nat) :
    ∀ depth, CallsKeep settlement (callWithin rounds depth)
  | 0 => by
      intro paren callee arguments _ _
      rw [callWithin]
      apply (keeps_checkCall paren callee arguments).bind
      exact fun _ _ _ _ => .throw _
  | depth + 1 => by
      intro paren callee arguments soundCallee sound
      rw [callWithin]
      apply (keeps_checkCall paren callee arguments).bind
      rintro _ _ - ⟨rfl, arity⟩
      have runs : RunsKeep settlement (Stmt.executeAll (callWithin rounds depth) rounds) :=
        fun covers complete statements settled =>
          keeps_executeAll (callWithin_keeps rounds depth) covers complete statements settled
      exact keeps_callValue runs soundCallee arity sound

end Calls

end LoxLang.Names
