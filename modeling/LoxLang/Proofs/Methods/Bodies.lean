import LoxLang.Proofs.Methods.Session

/-! # Inside the bodies of bound methods

What is executed inside the body of a bound method is what its calls execute themselves,
and what calls of the functions execute that are declared there, whenever these are
called. All of it is executed in frames around which the frame of the bound method is,
with no other reserved frame in between, so that what classes bind is found where the
scopes around the method have it.
-/

namespace LoxLang

open Names

/-! ## Frames and scopes around a body -/

/-- The scopes around a frame are those around a home and scopes without reserved names
inside of it. -/
inductive Scopes.Around (frames : Frames) (home : FrameId) (base : Scopes) :
    Scopes → FrameId → Prop
  | here : Around frames home base base home
  | inner {scope : Scope} {outer : Scopes} {frame enclosing : FrameId}
      (around : Around frames home base outer enclosing)
      (enclosed : frames.enclosing? frame = some enclosing) (newer : enclosing < frame)
      (isOpen : frames.IsOpen frame)
      (unreserved : ∀ name ∈ reservedNames, scope.get? name = none) :
      Around frames home base (scope :: outer) frame

namespace Scopes.Around

variable {frames later : Frames} {home frame enclosing : FrameId} {base scopes : Scopes}
  {name : String}

theorem home_le (around : Around frames home base scopes frame) : home ≤ frame := by
  induction around with
  | here => exact Nat.le_refl home
  | inner _ _ newer _ _ induction => exact Nat.le_trans induction (Nat.le_of_lt newer)

theorem back (around : Around later home base scopes frame)
    (retains : frames.Retains later) (exists_ : frame < frames.size) :
    Around frames home base scopes frame := by
  induction around with
  | here => exact .here
  | inner _ enclosed newer isOpen unreserved induction =>
      rw [retains.enclosing _ exists_] at enclosed
      exact .inner (induction (Nat.lt_trans newer exists_)) enclosed newer
        ⟨exists_, isOpen.unreserved ∘ retains.isReserved⟩ unreserved

theorem enter (around : Around frames home base scopes frame) (inner : home < frame)
    (unreserved : name ∉ reservedNames) (complete : Bool) :
    Around frames home base (scopes.enter name complete) frame := by
  cases around with
  | here => exact absurd inner (Nat.lt_irrefl home)
  | inner outside enclosed newer isOpen others =>
      apply Around.inner outside enclosed newer isOpen
      intro asked reserved
      have different : name ≠ asked := fun same => unreserved (same ▸ reserved)
      rw [Bindings.get?_bind, if_neg different, others asked reserved]

theorem scopesAfter (around : Around frames home base scopes frame) (inner : home < frame)
    {statement : Stmt} (unreserved : ∀ name ∈ statement.declared?,
      name.lexeme ∉ reservedNames) :
    Around frames home base (statement.scopesAfter scopes) frame := by
  rw [Stmt.scopesAfter]
  split
  case h_1 name declared => exact around.enter inner (unreserved name declared) true
  case h_2 => exact around

theorem nest (around : Around frames home base scopes enclosing)
    (enclosed : frames.enclosing? frame = some enclosing) (newer : enclosing < frame)
    (isOpen : frames.IsOpen frame) {names : List String}
    (unreserved : ∀ name ∈ names, name ∉ reservedNames) :
    Around frames home base (scopes.nest names) frame := by
  obtain ⟨inner, same, found⟩ := scopes.nest_eq names
  rw [same]
  apply Around.inner around enclosed newer isOpen
  intro asked reserved
  rw [found, if_neg fun member => unreserved asked member reserved]

theorem distance? (around : Around frames home base scopes frame) :
    ∃ steps,
      (∀ name ∈ reservedNames,
        scopes.distance? name = (base.distance? name).map (· + steps)) ∧
      ∀ more, frames.ancestor? frame (more + steps) = frames.ancestor? home more := by
  induction around with
  | here => exact ⟨0, fun name _ => by simp, fun more => rfl⟩
  | inner _ enclosed _ _ unreserved induction =>
      obtain ⟨steps, distances, ancestors⟩ := induction
      refine ⟨steps + 1, ?_, ?_⟩
      · intro name reserved
        rw [distance?_cons, Bindings.contains, unreserved name reserved,
          distances name reserved, Option.map_map]
        rfl
      · intro more
        rw [← Nat.add_assoc, Frames.ancestor?_succ enclosed, ancestors]

theorem home? (around : Around frames home base scopes frame) (reserved : name ∈ reservedNames)
    (has : frames.Has home name) (exists_ : frame < frames.size) :
    frames.home? frame name = some home := by
  have nearest : ∀ limit, frame < limit →
      (frames.chainWithin limit frame).find?
        (fun candidate => (frames.namesOf candidate).contains name) = some home := by
    clear exists_
    induction around with
    | here =>
        intro limit less
        obtain ⟨limit, rfl⟩ := Nat.exists_eq_add_one_of_ne_zero (Nat.ne_zero_of_lt less)
        exact List.find?_cons_of_pos has
    | inner _ enclosed newer isOpen _ induction =>
        intro limit less
        obtain ⟨limit, rfl⟩ := Nat.exists_eq_add_one_of_ne_zero (Nat.ne_zero_of_lt less)
        rw [Frames.chainWithin, enclosed, List.find?_cons_of_neg]
        · exact induction limit (Nat.lt_of_lt_of_le newer (Nat.le_of_lt_succ less))
        · exact fun has => isOpen.unreserved ⟨name, reserved, has⟩
  exact nearest _ exists_

end Scopes.Around

/-! ## Executions inside of bodies -/

def Task.isCall : Task → Bool
  | call _ _ _ => true
  | _ => false

/-- What is executed inside the body of a bound method, among what happens. The functions
that are declared there may be called from anywhere; what the body calls itself is not
inside of it. -/
inductive InBody (happens : Nat → Execution → Prop) (bound : Closure) :
    Nat → Execution → Prop
  | call {rounds depth : Nat} {arguments : List Value} {machine : Machine}
      (happened : happens rounds ⟨depth, .closure bound arguments, machine⟩) :
      InBody happens bound rounds ⟨depth, .closure bound arguments, machine⟩
  | executes {rounds : Nat} {whole part : Execution}
      (inside : InBody happens bound rounds whole) (executes : Executes rounds whole part)
      (noCall : part.task.isCall = false) : InBody happens bound rounds part
  | nested {rounds rounds' depth depth' : Nat} {routine : Routine}
      {declared machine : Machine} {arguments : List Value}
      (inside : InBody happens bound rounds
        ⟨depth, .statement (.function routine), declared⟩)
      (happened : happens rounds'
        ⟨depth', .closure ⟨routine, declared.current, false⟩ arguments, machine⟩) :
      InBody happens bound rounds'
        ⟨depth', .closure ⟨routine, declared.current, false⟩ arguments, machine⟩

def Task.Settled (settlement : Settlement) (scopes : Scopes) : Task → Prop
  | .expression inner => inner.Settled settlement scopes
  | .expressions inner => Expr.SettledAll settlement scopes inner
  | .statement inner => inner.Settled settlement scopes
  | .statements inner => Stmt.SettledAll settlement scopes inner
  | .loop condition body _ => Stmt.Settled settlement scopes (.whileLoop condition body)
  | .call _ _ _ | .closure _ _ => False

inductive Execution.Inside (settlement : Settlement) (frames : Frames) (home : FrameId)
    (base : Scopes) : Execution → Prop
  | task {depth : Nat} {task : Task} {machine : Machine} {scopes : Scopes}
      (around : base.Around frames home scopes machine.current)
      (inner : home < machine.current) (settled : task.Settled settlement scopes) :
      Inside settlement frames home base ⟨depth, task, machine⟩
  | closure {depth : Nat} {closure : Closure} {arguments : List Value}
      {machine : Machine} {scopes : Scopes}
      (around : base.Around frames home scopes closure.frame)
      (settled : closure.routine.Settled settlement scopes) :
      Inside settlement frames home base ⟨depth, .closure closure arguments, machine⟩

theorem Names.Ready.frame_lt {settlement : Settlement} {depth : Nat} {closure : Closure}
    {arguments : List Value} {machine : Machine}
    (ready : Ready settlement ⟨depth, .closure closure arguments, machine⟩) :
    closure.frame < machine.frames.size := by
  cases ready with
  | closure sound soundClosure =>
      obtain ⟨_, covers, _, _⟩ := soundClosure
      exact covers.lt_size sound.positive

theorem Stmt.Settled.unreserved {settlement : Settlement} {scopes : Scopes}
    {statement : Stmt} (settled : statement.Settled settlement scopes) :
    ∀ name ∈ statement.declared?, name.lexeme ∉ reservedNames := by
  cases statement with
  | classDecl | function | «var» =>
      exact fun name declared => Option.some.inj declared ▸ settled.1.unreserved
  | block | expression | ifThen | print | returns | whileLoop => exact nofun

section Inside

variable {settlement : Settlement} {final : Frames} {home : FrameId} {base : Scopes}
  {rounds : Nat} {whole part : Execution}

/-- What an execution executes itself is inside of the same home. -/
theorem Execution.Inside.executes (inside : whole.Inside settlement final home base)
    (executes : Executes rounds whole part)
    (noCall : part.task.isCall = false) {known : Settlement} (guarded : whole.Guarded known)
    (later : part.machine.frames.Retains final) :
    part.Inside settlement final home base := by
  obtain ⟨ready, -, isOpen⟩ := guarded
  cases inside with
  | closure around settled =>
      cases executes with
      | body entered =>
          obtain ⟨rfl, isOpen', enclosed⟩ :=
            Action.parameterFrame_ok settled.unreserved entered
          rw [← later.enclosing _ isOpen'.exists_] at enclosed
          have newer := ready.frame_lt
          have names : ∀ name ∈ _, name ∉ reservedNames :=
            List.forall_mem_map.mpr settled.unreserved
          exact .task (around.nest enclosed newer (later.isOpen isOpen') names)
            (Nat.lt_of_le_of_lt around.home_le newer) settled.body
  | @task depth task machine scopes around inner settled =>
      have inSame {scopes' : Scopes} {task' : Task}
          (same : part.machine.current = machine.current)
          (around' : base.Around final home scopes' machine.current)
          (settled' : task'.Settled settlement scopes') :
          Execution.Inside settlement final home base ⟨part.depth, task', part.machine⟩ :=
        .task (same ▸ around') (same ▸ inner) settled'
      have same := executes.current_eq
      cases executes with
      | assigned | binaryLeft | callee | logicalLeft | setObject | firstExpression
      | firstStatement => exact .task around inner settled.1
      | getObject | grouped | unaryOperand | inner | printed | returned | loop =>
          exact .task around inner settled
      | binaryRight | arguments | logicalRight | setValue | otherExpressions =>
          exact inSame (same nofun nofun) around settled.2
      | condition => exact .task around inner (settled_of_ifThen settled).1
      | thenBranch => exact inSame (same nofun nofun) around (settled_of_ifThen settled).2
      | elseBranch => exact inSame (same nofun nofun) around settled.2.2.2
      | initializer =>
          exact .task (around.enter inner settled.1.unreserved false) inner settled.2
      | loopCondition => exact .task around inner settled.1
      | loopBody => exact inSame (same nofun nofun) around settled.2.2
      | loopRest => exact inSame (same nofun nofun) around settled
      | otherStatements =>
          have around' := around.scopesAfter inner settled.1.unreserved
          exact inSame (same nofun nofun) around' settled.2
      | block done =>
          cases done
          have isNew : Frames.IsOpen (machine.frames.push (some machine.current)) _ :=
            Frames.isOpen_push _
          have enclosed := later.enclosing _ isNew.exists_
          rw [Frames.enclosing?_push, if_pos rfl] at enclosed
          have around' := around.nest enclosed isOpen.exists_ (later.isOpen isNew)
            (List.forall_mem_nil _)
          exact .task around' (Nat.lt_trans inner isOpen.exists_) settled
      | call => exact nomatch noCall
      | function | construct | body => exact settled.elim

theorem InBody.inside {happens : Nat → Execution → Prop} {bound : Closure}
    {execution : Execution} (inBody : InBody happens bound rounds execution)
    (leadsTo : Session.LeadsTo happens settlement final)
    (settled : bound.routine.Settled settlement base) :
    happens rounds execution ∧ execution.Inside settlement final bound.frame base := by
  induction inBody with
  | call happened => exact ⟨happened, .closure .here settled⟩
  | executes _ executes noCall induction =>
      obtain ⟨happened, inside⟩ := induction
      have happened' := leadsTo.executes happened executes
      obtain ⟨_, guarded, _⟩ := (leadsTo.moment happened).guarded
      have starts := (leadsTo.moment happened').starts
      exact ⟨happened', inside.executes executes noCall guarded starts⟩
  | nested _ happened induction =>
      obtain ⟨-, inside⟩ := induction
      cases inside with
      | task around inner settled =>
          have around' := around.enter inner settled.1.unreserved true
          exact ⟨happened, .closure around' settled.2⟩

end Inside

end LoxLang
