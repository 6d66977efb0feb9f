import LoxLang.Machine.Calls
import LoxLang.Proofs.Lexical.Evaluation
import LoxLang.Proofs.Lexical.Steps

/-! # Declarations in frames and cells

A declaration adds a name to the frame it stands in. That this name has no cell yet is
known because the frame has no other names than those of the innermost scope.
-/

namespace LoxLang

namespace Lexical

open Comparison

/-- The frame has no other names than the innermost scope. -/
def Exact (world : World) (scopes : Scopes) (frame : FrameId) : Prop :=
  ∀ scope ∈ scopes.head?, ∀ name cell, world.cellOf frame name = some cell →
    scope.contains name

def Declared (scopes : Scopes) (name : String) : Prop :=
  ∀ scope ∈ scopes.head?, scope.contains name

theorem declared_declare (scopes : Scopes) (name : String) :
    Declared (scopes.declare name) name := by
  cases scopes with
  | nil => simp [Declared, Scopes.declare, Scopes.enter]
  | cons scope outer =>
      simp [Declared, Scopes.declare, Scopes.enter, Bindings.contains_bind]

theorem declared_define (scopes : Scopes) (name : String) :
    Declared (scopes.define name) name := by
  cases scopes with
  | nil => simp [Declared, Scopes.define, Scopes.enter]
  | cons scope outer =>
    simp [Declared, Scopes.define, Scopes.enter, Bindings.contains_bind]

section Scopes

variable {world later : World} {own : Option FrameId} {scopes outer : Scopes}
    {scope : Scope}
  {frame enclosing : FrameId} {view : View} {cells : Bindings Cell} {name : String}
    {cell : Cell}

theorem Exact.mono (exact_ : Exact world scopes frame) (grows : world.Grows own later)
    (exists_ : frame < world.frameCount) (notOwn : own ≠ some frame) :
    Exact later scopes frame := by
  intro scope head name cell found
  rw [grows.unchanged frame exists_ notOwn] at found
  exact exact_ scope head name cell found

theorem Exact.new (exact_ : Exact world (scope :: outer) frame)
    (fresh : scope.contains name = false) : world.cellOf frame name = none := by
  cases found : world.cellOf frame name with
  | none => rfl
  | some cell => exact absurd (exact_ scope rfl name cell found) (by simp [fresh])

theorem Aligned.not_globals (aligned : Aligned world (scope :: outer) frame view) :
    frame ≠ LoxLang.Machine.globals := by
  cases aligned with
  | inside _ enclosed _ _ =>
      rintro rfl
      rw [world.outermost] at enclosed
      cases enclosed

theorem Aligned.nest (aligned : Aligned world scopes enclosing view)
    (enclosed : world.enclosing frame = some enclosing) :
    Aligned world (Bindings.empty :: scopes) frame (.inside view.cells) := by
  refine .inside aligned enclosed ?_ ?_
  · intro name complete declared
    simp at declared
  · intro name _
    simp

theorem Aligned.enter (aligned : Aligned world (scope :: outer) frame (.inside cells))
    (inFrame : world.cellOf frame name = some cell) {complete : Bool}
    (full : complete = true → world.Full cell) :
    Aligned world (scope.bind name complete :: outer) frame
      (.inside (cells.bind name cell)) := by
  cases aligned with
  | inside outerAligned enclosed here elsewhere =>
      refine .inside outerAligned enclosed ?_ ?_
      · intro asked complete' declared
        rw [Bindings.get?_bind] at declared
        split at declared
        case isTrue same =>
          subst same
          rcases Option.some.inj declared with rfl
          exact ⟨cell, inFrame, by simp, full⟩
        case isFalse different =>
          rcases here asked complete' declared with ⟨cell', inFrame', inView, full'⟩
          exact ⟨cell', inFrame', by simp [different, inView], full'⟩
      · intro asked undeclared
        rw [Bindings.get?_bind] at undeclared
        split at undeclared
        case isTrue => cases undeclared
        case isFalse different => simp [different, elsewhere asked undeclared]

theorem Aligned.complete (aligned : Aligned world (scope :: outer) frame (.inside cells))
    (inView : cells.get? name = some cell) (inFrame : world.cellOf frame name = some cell)
    (full : world.Full cell) :
    Aligned world (scope.bind name true :: outer) frame (.inside cells) := by
  cases aligned with
  | inside outerAligned enclosed here elsewhere =>
      refine .inside outerAligned enclosed ?_ ?_
      · intro asked complete declared
        rw [Bindings.get?_bind] at declared
        split at declared
        case isTrue same =>
          subst same
          exact ⟨cell, inFrame, inView, fun _ => full⟩
        case isFalse => exact here asked complete declared
      · intro asked undeclared
        rw [Bindings.get?_bind] at undeclared
        split at undeclared
        case isTrue => cases undeclared
        case isFalse => exact elsewhere asked undeclared

theorem Exact.enter (exact_ : Exact world (scope :: outer) frame)
    (grown : ∀ other, other ≠ name → later.cellOf frame other = world.cellOf frame other)
    (complete : Bool) : Exact later (scope.bind name complete :: outer) frame := by
  intro scope' head asked cell found
  obtain rfl : scope.bind name complete = scope' := by simpa using head
  rw [Bindings.contains_bind]
  by_cases same : name = asked
  · simp [same]
  · rw [grown asked (Ne.symm same)] at found
    simp [exact_ scope rfl asked cell found]

end Scopes

/-! ## Names -/

section Names

variable {world : World} {current frame : FrameId} {own : Option FrameId}
    {scopes outer : Scopes}
  {scope : Scope} {view : View} {name : String} {α α' : Type}
    {post : World → α → α' → Prop}

theorem follows_declare {left : LoxLang.Action α} {next : View → Action α'}
    (aligned : Aligned world scopes frame view) (exact_ : Exact world scopes frame)
    (fresh : scopes.declaredHere name = false)
    (follows : ∀ later view', world.Grows (some frame) later →
      Aligned later (scopes.declare name) frame view' →
      Exact later (scopes.declare name) frame →
      (comparison frame (some frame)).Follows later left (next view') post) :
    (comparison frame (some frame)).Follows world left (declare name view >>= next)
      post := by
  cases aligned with
  | topLevel => exact follows world .topLevel (.refl _) .topLevel exact_
  | @inside scope outer frame enclosing outerView cells outerAligned enclosed here
      elsewhere =>
      have aligned : Aligned world (scope :: outer) frame (.inside cells) :=
        .inside outerAligned enclosed here elsewhere
      have new := exact_.new (by simpa [Scopes.declaredHere] using fresh)
      rw [declare, bind_assoc]
      apply follows_newCell aligned.frame_lt aligned.not_globals new
      rw [pure_bind]
      have grows := World.grows_withCell aligned.frame_lt aligned.not_globals new
      refine follows _ _ grows ?_ ?_
      · exact (aligned.mono grows).enter (by simp [World.withCell]) nofun
      · refine exact_.enter ?_ false
        intro other different
        simp [World.withCell, different]

theorem follows_complete {value : Value} {value' : Value View}
    (aligned : Aligned world scopes frame view) (exact_ : Exact world scopes frame)
    (declared : Declared scopes name) (unreserved : name ∉ reservedNames)
    (values : ∀ later, world.Grows none later →
      Aligned later (scopes.define name) frame view →
      later.Values value value') :
    (comparison frame own).Follows world (Action.define name value)
      (define view name value')
      fun grown _ _ => Aligned grown (scopes.define name) frame view ∧
        Exact grown (scopes.define name) frame := by
  apply follows_currentFrame
  cases aligned with
  | topLevel =>
      apply (follows_defineGlobal (values world (.refl _) .topLevel)).weaken
      rintro _ _ _ _ rfl
      exact ⟨.topLevel, exact_⟩
  | @inside scope outer frame enclosing outerView cells outerAligned enclosed here
      elsewhere =>
      have aligned : Aligned world (scope :: outer) frame (.inside cells) :=
        .inside outerAligned enclosed here elsewhere
      rcases Option.isSome_iff_exists.mp (declared scope rfl) with ⟨complete, state⟩
      rcases here name complete state with ⟨cell, inFrame, inView, -⟩
      have grows : world.Grows none (world.fill cell) := World.grows_fill cell
      have completed : Aligned (world.fill cell) (scope.bind name true :: outer) frame
          (.inside cells) := (aligned.mono grows).complete inView inFrame (.inl rfl)
      rw [define, View.cell?_inside, inView]
      refine (follows_define inFrame ?_ (values _ grows completed)).weaken ?_
      · rintro rfl
        exact absurd (by simp [reservedNames]) unreserved
      · rintro _ _ _ _ rfl
        exact ⟨completed, exact_.enter (fun _ _ => rfl) true⟩

theorem follows_bindNew {value : Value} {value' : Value View}
    (aligned : Aligned world (scope :: outer) frame view)
    (exact_ : Exact world (scope :: outer) frame) (fresh : scope.contains name = false)
    (isClass : name = "super" → ∃ description, value = .classValue description)
    (values : world.Values value value') :
    (comparison current (some frame)).Follows world (Action.defineIn frame name value)
      (newCellWith value') fun grown _ cell => world.Grows (some frame) grown ∧
        Aligned grown (Scopes.define (scope :: outer) name) frame
          (view.extend name cell) ∧
          Exact grown (Scopes.define (scope :: outer) name) frame := by
  have new := exact_.new fresh
  have exists_ := aligned.frame_lt
  have local_ := aligned.not_globals
  have grows := World.grows_withCell exists_ local_ new
  have found : (world.withCell frame name exists_ local_).cellOf frame name =
      some world.cellCount := by simp [World.withCell]
  have further : (world.withCell frame name exists_ local_).Grows (some frame)
      ((world.withCell frame name exists_ local_).fill world.cellCount) :=
        World.grows_fill _
  have both := grows.trans further
  apply follows_newCell exists_ local_ new
  rw [show Action.defineIn frame name value = Action.defineIn frame name value >>=
    pure by simp]
  apply (follows_define found isClass (values.mono both)).bind
  rintro _ _ _ _ rfl
  refine .pure ⟨both, ?_, ?_⟩
  · cases aligned with
    | inside outerAligned enclosed here elsewhere =>
        have aligned := (Aligned.inside outerAligned enclosed here elsewhere).mono both
        exact aligned.enter found fun _ => .inl rfl
  · refine exact_.enter ?_ true
    intro other different
    simp [World.withCell, World.fill, different]

end Names

/-! ## Methods -/

section Methods

variable {world : World} {frame : FrameId} {own : Option FrameId} {scopes : Scopes}
    {view : View}
  {α α' : Type}

theorem follows_ofNone {left : LoxLang.Action α} {right : Action α'}
    {post : World → α → α' → Prop}
    (follows : (comparison frame none).Follows world left right post) :
    (comparison frame own).Follows world left right fun grown result result' =>
      world.Grows none grown ∧ post grown result result' := by
  intro machine machine' holds
  have ends := follows machine machine' holds
  generalize left machine = outcome at ends ⊢
  generalize right machine' = outcome' at ends ⊢
  cases ends with
  | ok grows holds results => exact .ok (World.Grows.ofNone grows) holds ⟨grows, results⟩
  | error grows holds stops => exact .error (World.Grows.ofNone grows) holds stops

theorem Exact.newFrame (outer : FrameId) :
    Exact (world.withFrame outer) (Bindings.empty :: scopes) world.frameCount := by
  intro scope _ name cell found
  exact absurd (world.frame_lt found) (Nat.lt_irrefl _)

theorem Aligned.newFrame {outer : FrameId} (aligned : Aligned world scopes outer view) :
    Aligned (world.withFrame outer) (Bindings.empty :: scopes) world.frameCount
      (.inside view.cells) := by
  have grows : world.Grows none (world.withFrame outer) := World.grows_withFrame outer
  exact (aligned.mono grows).nest (by simp [World.withFrame])

theorem follows_bindThis {closure : Closure} {closure' : Closure View} {this : Value}
    {this' : Value View} (methods : world.Methods closure closure')
    (values : world.Values this this') :
    (comparison frame own).Follows world (Action.bindThis closure this)
      (bindThis closure' this')
      fun grown bound bound' => grown.Functions bound bound' ∧
        bound.routine = closure.routine := by
  rcases methods with ⟨routine, isInitializer, scopes, aligned, settled⟩
  have grows : world.Grows none (world.withFrame closure.frame) := World.grows_withFrame _
  apply follows_newFrame
  refine (follows_bindNew aligned.newFrame (Exact.newFrame _) rfl (by simp)
    (values.mono grows)).bind ?_
  rintro grown _ cell _ ⟨grows', aligned', -⟩
  refine .pure ⟨⟨routine, isInitializer, scopes.nest ["this"], ?_, ?_, fun _ => rfl⟩, rfl⟩
  · exact aligned'
  · exact Routine.settled_mono (grows.settlement.trans grows'.settlement) _ _ settled

theorem follows_boundMethod {closure : Closure} {closure' : Closure View} {this : Value}
    {this' : Value View} (methods : world.Methods closure closure')
    (values : world.Values this this') :
    (comparison frame own).Follows world (Action.boundMethod closure this)
      (boundMethod closure' this') World.Values := by
  apply (follows_bindThis methods values).bind
  rintro grown bound bound' _ ⟨functions, -⟩
  apply follows_newIdentity.bind
  rintro _ _ _ _ ⟨rfl, rfl⟩
  exact .pure (.function functions)

theorem follows_method {description : Class} {description' : Class View}
    {name : Occurrence} {this : Value} {this' : Value View}
    (classes : world.Classes description description')
    (values : world.Values this this') :
    (comparison frame own).Follows world (Action.method description name this)
      (method description' name this') World.Values := by
  unfold Action.method method
  rcases rel_cases (classes.findMethod? name.lexeme) with
      ⟨left, right⟩ | ⟨_, _, left, right, methods⟩ <;> rw [left, right]
  · exact .fail rfl _
  · exact follows_boundMethod methods values

theorem follows_property {value : Value} {value' : Value View} {name : Occurrence}
    (values : world.Values value value') :
    (comparison frame own).Follows world (Action.property value name)
      (property value' name) World.Values := by
  unfold Action.property property
  cases id values with
  | object classes =>
      apply follows_field?.bind
      intro grown found found' grows fields
      rcases rel_cases fields with ⟨rfl, rfl⟩ | ⟨_, _, rfl, rfl, value⟩
      · exact follows_method (classes.imp fun _ _ methods => methods.mono grows)
          (World.Values.mono values grows)
      · exact .pure value
  | nil | bool | number | string | function | native | classValue => exact .fail rfl _

theorem follows_superMethod {keyword name : Occurrence}
    (aligned : Aligned world scopes frame view)
    (reads : scopes.ReadsSuper world.settlement keyword) :
    (comparison frame own).Follows world (Action.superMethod keyword name)
      (superMethod view name) World.Values := by
  rcases reads with
      ⟨lexeme, binds, ⟨distance, superBound, thisBound⟩, superComplete, thisComplete⟩
  apply follows_distanceOf
  rw [binds.2, lexeme, superBound]
  rcases follows_localValue own aligned superBound (by simp [superComplete]) with
      ⟨superCell, superInView, superFollows⟩
  rcases follows_localValue own aligned thisBound (by simp [thisComplete]) with
      ⟨thisCell, thisInView, -⟩
  rw [superMethod, superInView, thisInView]
  apply superFollows.bind
  rintro grown superclass superclass' grows ⟨classes, isClass⟩
  rcases follows_localValue own (aligned.mono grows) thisBound
      (by simp [thisComplete]) with
      ⟨thisCell', thisInView', thisFollows⟩
  obtain rfl : thisCell = thisCell' := Option.some.inj (thisInView.symm.trans thisInView')
  apply thisFollows.bind
  rintro grown' this this' grows' ⟨objects, -⟩
  rcases isClass rfl with ⟨description, rfl⟩
  cases classes with
  | classValue classes =>
      exact follows_method (classes.imp fun _ _ methods => methods.mono grows') objects

end Methods

/-! ## Functions and classes -/

section Classes

variable {world : World} {frame : FrameId} {own : Option FrameId} {scopes : Scopes}
    {view : View}

theorem declareFunction_follows {routine : Routine}
    (aligned : Aligned world scopes frame view) (exact_ : Exact world scopes frame)
    (admits : scopes.Admits routine.name)
    (settled : routine.Settled world.settlement (scopes.define routine.name.lexeme)) :
    (comparison frame (some frame)).Follows world (Action.declareFunction routine)
      (declareFunction view routine) fun grown _ view' =>
        Aligned grown (scopes.define routine.name.lexeme) frame view' ∧
          Exact grown (scopes.define routine.name.lexeme) frame := by
  rw [declareFunction]
  apply follows_declare aligned exact_ admits.fresh
  intro later view' grows aligned' exact'
  apply follows_currentFrame
  apply follows_newIdentity.bind
  rintro _ identity _ _ ⟨rfl, rfl⟩
  rw [← bind_pure (Action.define _ _)]
  refine (follows_complete aligned' exact' (declared_declare _ _) admits.unreserved
    ?_).bind ?_
  · intro grown grows' aligned''
    rw [Scopes.define_declare] at aligned''
    refine .function ⟨rfl, rfl, _, aligned'', ?_, nofun⟩
    exact Routine.settled_mono (grows.settlement.trans grows'.settlement) _ _ settled
  · rintro grown _ _ _ ⟨aligned'', exact''⟩
    rw [Scopes.define_declare] at aligned'' exact''
    exact .pure ⟨aligned'', exact''⟩

theorem superclass_follows {name : Occurrence} {clause : Option Occurrence}
    (aligned : Aligned world scopes frame view)
    (settled : scopes.SettledSuperclass world.settlement name clause) :
    (comparison frame own).Follows world (Action.superclass clause)
      (superclass view clause)
      fun grown found found' => Option.Rel grown.Classes found found' ∧
        found.isSome = clause.isSome := by
  cases clause with
  | none => exact .pure ⟨.none, rfl⟩
  | some reference =>
      apply (follows_read aligned settled.2).bind
      intro grown value value' _ values
      cases values with
      | classValue classes => exact .pure ⟨.some classes, rfl⟩
      | nil | bool | number | string | function | native | object => exact .fail rfl _

def methodScopes (scopes : Scopes) (clause : Option Occurrence) : Scopes :=
  if clause.isSome then scopes.nest ["super"] else scopes

theorem insideClass_eq (scopes : Scopes) (clause : Option Occurrence) :
    scopes.insideClass clause = (methodScopes scopes clause).nest ["this"] := by
  cases clause <;> rfl

theorem methodFrame_follows {found : Option Class} {found' : Option (Class View)}
    {clause : Option Occurrence} (aligned : Aligned world scopes frame view)
    (classes : Option.Rel world.Classes found found')
    (isSome : found.isSome = clause.isSome) :
    (comparison frame own).Follows world (Action.methodFrame found)
      (methodView view found')
      fun grown inner inner' =>
        Aligned grown (methodScopes scopes clause) inner inner' := by
  apply follows_currentFrame
  rw [methodScopes, ← isSome]
  rcases rel_cases classes with ⟨rfl, rfl⟩ | ⟨description, description', rfl, rfl, same⟩
  · exact .pure aligned
  · have grows : world.Grows none (world.withFrame frame) := World.grows_withFrame _
    apply follows_newFrame
    refine (follows_bindNew aligned.newFrame (Exact.newFrame _) rfl (fun _ => ⟨_, rfl⟩)
      (.classValue (World.Classes.mono same grows))).bind ?_
    rintro grown _ cell _ ⟨-, aligned', -⟩
    exact .pure aligned'

theorem methodTable_related {methods : List Routine}
    (aligned : Aligned world scopes frame view)
    (settled : Routine.SettledAll world.settlement (scopes.nest ["this"]) methods) :
    Bindings.Related world.Methods (Class.methodTable frame methods)
      (Class.methodTable view methods) := by
  have step : ∀ (table : Bindings Closure) (table' : Bindings (Closure View)),
      Bindings.Related world.Methods table table' →
        Bindings.Related world.Methods
          (methods.foldl (fun table method =>
            table.bind method.name.lexeme ⟨method, frame, method.isNamedInit⟩) table)
          (methods.foldl (fun table method =>
            table.bind method.name.lexeme ⟨method, view, method.isNamedInit⟩)
              table') := by
    induction methods with
    | nil => exact fun _ _ tables => tables
    | cons method methods induction =>
        intro table table' tables
        exact induction settled.2 _ _
          (tables.bind _ ⟨rfl, rfl, scopes, aligned, settled.1⟩)
  exact step _ _ .empty

theorem declareClass_follows {name : Occurrence} {clause : Option Occurrence}
    {methods : List Routine} (aligned : Aligned world scopes frame view)
    (exact_ : Exact world scopes frame) (admits : scopes.Admits name)
    (superclassSettled : scopes.SettledSuperclass world.settlement name clause)
    (settled : Routine.SettledAll world.settlement
      ((scopes.define name.lexeme).insideClass clause) methods) :
    (comparison frame (some frame)).Follows world
      (Action.declareClass name clause methods)
      (declareClass view name clause methods) fun grown _ view' =>
        Aligned grown (scopes.define name.lexeme) frame view' ∧
          Exact grown (scopes.define name.lexeme) frame := by
  unfold Action.declareClass declareClass
  apply (follows_ofNone (superclass_follows aligned superclassSettled)).bind
  rintro grown₁ found found' - ⟨grows₁, classes, isSome⟩
  refine follows_declare (aligned.mono grows₁) (exact_.mono grows₁ aligned.frame_lt nofun)
    admits.fresh ?_
  intro grown₂ view₂ grows₂ aligned₂ exact₂
  -- The name is first bound to nothing, so that the methods may refer to it.
  refine (follows_complete aligned₂ exact₂ (declared_declare _ _) admits.unreserved
    fun _ _ _ => .nil).bind ?_
  rintro grown₃ _ _ grows₃ ⟨aligned₃, exact₃⟩
  rw [Scopes.define_declare] at aligned₃ exact₃
  have classes₃ : Option.Rel grown₃.Classes found found' :=
    rel_imp classes fun _ _ same =>
      World.Classes.mono (World.Classes.mono same grows₂) grows₃
  apply (follows_ofNone (methodFrame_follows aligned₃ classes₃ isSome)).bind
  rintro grown₄ inner inner' - ⟨grows₄, innerAligned⟩
  apply follows_newIdentity.bind
  rintro _ identity _ _ ⟨rfl, rfl⟩
  have aligned₄ := aligned₃.mono grows₄
  have exact₄ := exact₃.mono grows₄ aligned₃.frame_lt nofun
  rw [← bind_pure (Action.define _ _)]
  refine (follows_complete aligned₄ exact₄ (declared_define _ _) admits.unreserved
    ?_).bind ?_
  · intro grown₅ grows₅ _
    have settled₅ := Routine.settledAll_mono
      ((((grows₁.settlement.trans grows₂.settlement).trans grows₃.settlement).trans
        grows₄.settlement).trans grows₅.settlement) _ _ settled
    rw [insideClass_eq] at settled₅
    have tables := methodTable_related (innerAligned.mono grows₅) settled₅
    rcases rel_cases classes₃ with
        ⟨rfl, rfl⟩ | ⟨description, description', rfl, rfl, same⟩
    · exact .classValue (.root tables)
    · exact .classValue (.derived
        (World.Classes.mono (World.Classes.mono same grows₄) grows₅) tables)
  · rintro grown₅ _ _ _ ⟨aligned₅, exact₅⟩
    rw [Scopes.define_define] at aligned₅ exact₅
    exact .pure ⟨aligned₅, exact₅⟩

end Classes

end Lexical

end LoxLang
