import LoxLang.Proofs.Origins.Deeds

/-! # Histories

A history is a stage and the deeds that follow. Where everything can be traced in the
beginning, it can be traced at every moment of the history. Frames are never enclosed in
another way, all but the frames that were made outermost are enclosed, and no two classes
that are made have the same number.
-/

namespace LoxLang

open LoxLang.Action

variable {sources : Sources} {stage : Stage} {deed : Deed} {deeds : List Deed}
  {machine : Machine} {hands : List Value} {task : Option Task}

/-! ## Executions in a history -/

theorem Execution.Traced.leaves {rounds : Nat} {execution : Execution}
    (traced : execution.Traced sources rounds) :
    execution.machine.TracedTo sources (execution.leaves rounds) := by
  have sound := traced.sound
  have machine := traced.machine
  rcases execution with ⟨depth, task, reached⟩
  cases task with
  | expression => exact sound.expression.leaves machine
  | expressions => exact sound.expressions.leaves machine
  | statement => exact sound.statement.leaves machine
  | statements => exact sound.statements.leaves machine
  | loop => exact sound.loop.leaves machine
  | call => exact sound.call.leaves machine
  | closure => exact sound.closure.leaves machine

theorem Execution.Traced.handedOver {rounds : Nat} {execution : Execution}
    (traced : execution.Traced sources rounds) :
    ∀ value ∈ execution.task.handedOver, value.Traced sources execution.machine := by
  have values := traced.task
  rcases execution with ⟨depth, task, reached⟩
  cases task with
  | call => exact List.forall_mem_cons.mpr values
  | closure => exact values.2
  | expression | expressions | statement | statements | loop => exact List.forall_mem_nil _

theorem Execution.Traced.read {rounds : Nat} {execution : Execution}
    (traced : execution.Traced sources rounds) (some_ : execution.task.references ≠ []) :
    sources.Read execution.task.references := by
  have read := traced.task
  rcases execution with ⟨depth, task, reached⟩
  cases task with
  | call => exact absurd rfl some_
  | closure => exact read.1.read
  | expression | expressions | statement | statements | loop => exact read

namespace Stage

theorem Ready.during {step : Session.Step} {work : Work} {execution : Execution}
    (ready : stage.Ready sources (.step step))
    (works : stage.session.work? step = some work)
    (undergoes : work.Undergoes (stage.session.opened step).machine execution) :
    execution.Traced sources work.budget.rounds ∧
      (stage.session.opened step).machine.Proceeds execution.machine ∧
      (execution.leaves work.budget.rounds).Continues (stage.after (.step step)).machine := by
  rcases undergoes.traced (ready.tracedWork works) with ⟨traced, starts, ends⟩
  refine ⟨traced, starts, ?_⟩
  change Machine.Continues _ (stage.session.take step).machine
  rw [Session.machine_take works]
  exact ⟨ends.frames, ends.enclosing, ends.identities⟩

/-! ## Courses of deeds -/

structure Course (sources : Sources) (stage : Stage) (deeds : List Deed) : Prop where
  traced : stage.Traced sources
  possible : stage.PossibleAll deeds
  brings : ∀ references, Sometime (Brings · · references) stage deeds →
    sources.Read references
  makes : ∀ description, Sometime (Makes · · description) stage deeds →
    sources.Made description

namespace Course

section First

variable {others : List Deed} (course : Course sources stage (deed :: others))

include course

theorem ready : stage.Ready sources deed :=
  ⟨course.traced, course.possible.1,
    fun references brings => course.brings references (.now brings),
    fun description makes => course.makes description (.now makes)⟩

theorem rest : Course sources (stage.after deed) others :=
  ⟨course.ready.advances.traced, course.possible.2,
    fun references brings => course.brings references (.later brings),
    fun description makes => course.makes description (.later makes)⟩

end First

theorem continues (course : Course sources stage deeds) :
    stage.machine.Continues (stage.afterAll deeds).machine := by
  induction deeds generalizing stage with
  | nil => exact .refl _
  | cons deed rest induction =>
      exact course.ready.advances.continues.trans (induction course.rest)

end Course

/-! ## Arrivals -/

structure Reached (sources : Sources) (stage : Stage) (deeds : List Deed)
    (machine : Machine) (hands : List Value) (task : Option Task) : Prop where
  traced : machine.Traced sources
  hands : ∀ value ∈ hands, value.Traced sources machine
  read : ∀ begun, task = some begun → begun.references ≠ [] →
    sources.Read begun.references
  before : stage.machine.Continues machine
  behind : machine.Continues (stage.afterAll deeds).machine
  outermost : ∀ frame, stage.machine.frames.size ≤ frame → frame < machine.frames.size →
    machine.frames.enclosing? frame = none → Sometime (MakesOutermost · · frame) stage deeds

theorem enclosed_of_proceeds {step : Session.Step} {frame : FrameId}
    (proceeds : (stage.session.opened step).machine.Proceeds machine)
    (new : stage.machine.frames.size ≤ frame) (exists_ : frame < machine.frames.size) :
    machine.frames.enclosing? frame ≠ none := by
  refine proceeds.enclosed frame ?_ exists_
  rcases stage.session.machine_opened step with ⟨distances, read⟩
  rw [read]
  exact new

theorem Arrives.reached (arrives : stage.Arrives deeds machine hands task)
    (course : Course sources stage deeds) :
    Reached sources stage deeds machine hands task := by
  induction arrives with
  | now =>
      exact ⟨course.traced.machine, course.traced.hands, (fun _ begun => nomatch begun),
        .refl _, .refl _, fun frame new exists_ => absurd exists_ (Nat.not_lt.mpr new)⟩
  | @starts stage step work execution works undergoes =>
      rcases course.ready.during works undergoes with ⟨traced, starts, behind⟩
      have before := (course.traced.opened step).2.trans starts.toContinues
      have leaves := traced.leaves.proceeds.toContinues
      refine ⟨traced.machine, ?_, ?_, before, leaves.trans behind,
        fun frame new exists_ unenclosed => ?_⟩
      · exact List.forall_mem_append.mpr ⟨traced.handedOver, fun value member =>
          (course.traced.hands value member).mono before⟩
      · intro begun isBegun some_
        rcases Option.some.inj isBegun with rfl
        exact traced.read some_
      · exact absurd unenclosed (enclosed_of_proceeds starts new exists_)
  | @ends stage step work execution works undergoes =>
      rcases course.ready.during works undergoes with ⟨traced, starts, behind⟩
      have leads := traced.leaves
      have proceeds := starts.trans leads.proceeds
      have before := (course.traced.opened step).2.trans proceeds.toContinues
      refine ⟨leads.traced, ?_, (fun _ begun => nomatch begun), before, behind,
        fun frame new exists_ unenclosed => ?_⟩
      · exact fun value member => (course.traced.hands value member).mono before
      · exact absurd unenclosed (enclosed_of_proceeds proceeds new exists_)
  | @later stage deed rest machine hands task arrives induction =>
      have reached := induction course.rest
      have advances := course.ready.advances
      refine ⟨reached.traced, reached.hands, reached.read,
        advances.continues.trans reached.before, reached.behind,
        fun frame new exists_ unenclosed => ?_⟩
      -- The frame was made either by the first deed or by one of the others.
      rcases Nat.lt_or_ge frame (stage.after deed).machine.frames.size with inside | missing
      · refine .now (advances.outermost frame new inside ?_)
        rw [← reached.before.enclosing frame inside]
        exact unenclosed
      · exact .later (reached.outermost frame missing exists_ unenclosed)

/-! ## Moments -/

theorem Sometime.append {expected : Stage → Deed → Prop}
    (sometime : Sometime expected stage deeds) (rest : List Deed) :
    Sometime expected stage (deeds ++ rest) := by
  induction sometime with
  | now holds => exact .now holds
  | later _ induction => exact .later induction

theorem Course.append {done rest : List Deed} (course : Course sources stage (done ++ rest)) :
    Course sources stage done ∧ Course sources (stage.afterAll done) rest := by
  induction done generalizing stage with
  | nil =>
      exact ⟨⟨course.traced, trivial, (fun _ brings => nomatch brings),
        (fun _ makes => nomatch makes)⟩, course⟩
  | cons deed done induction =>
      rcases induction course.rest with ⟨first, second⟩
      exact ⟨⟨course.traced, ⟨course.possible.1, first.possible⟩,
        fun references brings => course.brings references (brings.append rest),
        fun description makes => course.makes description (makes.append rest)⟩, second⟩

theorem Moment.reached (moment : stage.Moment deeds machine hands)
    (course : Course sources stage deeds) :
    ∃ task, Reached sources stage deeds machine hands task := by
  rcases moment with ⟨done, task, ⟨rest, rfl⟩, arrives⟩
  rcases course.append with ⟨first, second⟩
  have reached := arrives.reached first
  have all : (stage.afterAll done).afterAll rest = stage.afterAll (done ++ rest) :=
    List.foldl_append.symm
  exact ⟨task, reached.traced, reached.hands, reached.read, reached.before,
    reached.behind.trans (all ▸ second.continues), fun frame new exists_ unenclosed =>
      (reached.outermost frame new exists_ unenclosed).append rest⟩

/-! ## Numbers of classes -/

section Numbers

variable {description description' : Class}

theorem Makes.between (makes : stage.Makes deed description)
    (ready : stage.Ready sources deed) :
    stage.machine.identities ≤ description.identity ∧
      description.identity < (stage.after deed).machine.identities := by
  cases makes with
  | @work step work _ works makes =>
      rcases makes.between (ready.tracedWork works) with ⟨younger, older⟩
      refine ⟨Nat.le_trans (ready.traced.opened step).2.identities younger, ?_⟩
      change _ < (stage.session.take step).machine.identities
      rw [Session.machine_take works]
      exact older
  | operation => exact ⟨Nat.le_refl _, Nat.lt_succ_self _⟩

theorem Makes.unique (makes : stage.Makes deed description)
    (makes' : stage.Makes deed description') (ready : stage.Ready sources deed)
    (numbers : description.identity = description'.identity) :
    description = description' := by
  cases makes with
  | work works makes =>
      cases makes' with
      | work works' makes' =>
          cases works.symm.trans works'
          exact makes.unique makes' (ready.tracedWork works) numbers
  | operation =>
      cases makes'
      rfl

theorem Course.numbered (course : Course sources stage deeds)
    (makes : Sometime (Makes · · description) stage deeds) :
    stage.machine.identities ≤ description.identity := by
  induction makes with
  | now makes => exact (makes.between course.ready).1
  | later _ induction =>
      exact Nat.le_trans course.ready.advances.continues.identities (induction course.rest)

theorem Course.unique (course : Course sources stage deeds)
    (makes : Sometime (Makes · · description) stage deeds)
    (makes' : Sometime (Makes · · description') stage deeds)
    (numbers : description.identity = description'.identity) :
    description = description' := by
  -- A deed gives out all its numbers before the next deed gives out any, so two classes
  -- with one number have been made by the same deed.
  induction makes with
  | now makes =>
      cases makes' with
      | now makes' => exact makes.unique makes' course.ready numbers
      | later makes' =>
          have older := (makes.between course.ready).2
          have younger := course.rest.numbered makes'
          omega
  | later makes induction =>
      cases makes' with
      | now makes' =>
          have older := (makes'.between course.ready).2
          have younger := course.rest.numbered makes
          omega
      | later makes' => exact induction course.rest makes'

end Numbers

/-! ## The beginning -/

theorem traced_start (sources : Sources) (clock : Clock) : (start clock).Traced sources := by
  have bare : (Machine.bare clock).Traced sources := by
    refine ⟨?_, ?_, ?_, Nat.one_pos⟩
    · intro frame name value found
      simp at found
    · intro object bindings name value isObject
      simp [Machine.bare] at isObject
    · intro frame outer enclosed
      rw [Machine.bare, Frames.enclosing?_push] at enclosed
      split at enclosed
      · cases enclosed
      · cases enclosed
  have started := (Sources.leads_defineNative "clock" 0 .clock).leaves bare
  exact ⟨started.traced, List.forall_mem_nil _⟩

def supply (stage : Stage) (deeds : List Deed) : Sources where
  Made description := Sometime (Makes · · description) stage deeds
  Read references := ∃ whole, Sometime (Brings · · whole) stage deeds ∧ references ⊆ whole
  fewer read subset := by
    rcases read with ⟨whole, brings, subset'⟩
    exact ⟨whole, brings, fun _ member => subset' (subset member)⟩

/-- Whatever can be done with a session, everything can be traced to what is done. -/
theorem course (clock : Clock) (possible : (start clock).PossibleAll deeds) :
    Course ((start clock).supply deeds) (start clock) deeds where
  traced := traced_start _ clock
  possible := possible
  brings references brings := ⟨references, brings, List.Subset.refl _⟩
  makes _ makes := makes

end Stage

end LoxLang
