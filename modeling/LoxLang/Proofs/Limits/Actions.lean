import LoxLang.Proofs.Machine.Course

/-! # Actions within wider limits

A run is limited in how many calls may be active at once and in how many rounds a loop may
take. An action within wider limits does the same as within narrow ones, unless it is
stopped there by a limit. No action goes on behind a stop, and none takes back what was
printed, so what has been printed up to the stop is then the beginning of what is printed
within the wider limits.
-/

namespace LoxLang

def Machine.PrintsOn (machine later : Machine) : Prop :=
  machine.printed.toList <+: later.printed.toList

theorem Machine.PrintsOn.refl (machine : Machine) : machine.PrintsOn machine :=
  List.prefix_refl _

theorem Machine.PrintsOn.trans {first second third : Machine}
    (start : first.PrintsOn second) (rest : second.PrintsOn third) : first.PrintsOn third :=
  List.IsPrefix.trans start rest

namespace Action

/-- The first action does what the second does, or the second is stopped by a limit. In
this case the first prints what the second has printed, and possibly more. -/
structure Outlasts (limits : Stop → Prop) (wide narrow : Action α) : Prop where
  prints : ∀ machine : Machine, machine.PrintsOn (wide.leaves machine)
  agrees : ∀ machine : Machine, wide machine = narrow machine ∨
    ∃ stop reached, narrow machine = .error stop reached ∧ limits stop ∧
      reached.PrintsOn (wide.leaves machine)

variable {limits : Stop → Prop}

/-! ## Sequences of actions -/

namespace Outlasts

variable {wide narrow : Action β} {wideNext narrowNext : β → Action α}

theorem silent {action : Action α} (silent : Preserves .printed action) :
    Outlasts limits action action where
  prints machine := by
    have same : (action.leaves machine).printed.toList = machine.printed.toList :=
      silent machine
    simp only [Machine.PrintsOn, same, List.prefix_refl]
  agrees _ := .inl rfl

theorem pure (result : α) : Outlasts limits (pure result) (pure result) :=
  silent (.pure result)

theorem throw (stop : Stop) :
    Outlasts limits (throw stop : Action α) (throw stop : Action α) :=
  silent (.throw stop)

theorem stopped {stop : Stop} (limit : limits stop)
    (prints : ∀ machine : Machine, machine.PrintsOn (wide.leaves machine)) :
    Outlasts limits wide (MonadExcept.throw stop) where
  prints := prints
  agrees machine := .inr ⟨stop, machine, rfl, limit, prints machine⟩

theorem prints_bind
    (later : ∀ result, Outlasts limits (wideNext result) (narrowNext result))
    (machine : Machine) :
    (wide.leaves machine).PrintsOn ((wide >>= wideNext).leaves machine) := by
  cases outcome : wide machine with
  | ok result between =>
      rw [leaves_of_ok outcome, leaves_bind_of_ok outcome]
      exact (later result).prints between
  | error stop between =>
      rw [leaves_bind_of_error outcome, leaves, outcome]
      exact .refl between

theorem bind (start : Outlasts limits wide narrow)
    (later : ∀ result, Outlasts limits (wideNext result) (narrowNext result)) :
    Outlasts limits (wide >>= wideNext) (narrow >>= narrowNext) where
  prints machine := (start.prints machine).trans (prints_bind later machine)
  agrees machine := by
    have further : (wide.leaves machine).PrintsOn ((wide >>= wideNext).leaves machine) :=
      prints_bind later machine
    obtain same | ⟨stop, reached, stopped, limit, printed⟩ := start.agrees machine
    · change EStateM.bind wide wideNext machine = EStateM.bind narrow narrowNext machine ∨
        ∃ stop reached, EStateM.bind narrow narrowNext machine = .error stop reached ∧ _
      simp only [EStateM.bind, same]
      cases outcome : narrow machine with
      | error => exact .inl rfl
      | ok result between =>
          rw [leaves_bind_of_ok (same.trans outcome)]
          exact (later result).agrees between
    · refine .inr ⟨stop, reached, ?_, limit, printed.trans further⟩
      change EStateM.bind narrow narrowNext machine = _
      simp only [EStateM.bind, stopped]

theorem within (frame : FrameId) (outlasts : Outlasts limits wide narrow) :
    Outlasts limits (within frame wide) (within frame narrow) where
  prints machine := by
    rw [leaves_within]
    exact outlasts.prints { machine with current := frame }
  agrees machine := by
    rw [leaves_within]
    obtain same | ⟨stop, reached, stopped, limit, printed⟩ :=
      outlasts.agrees { machine with current := frame }
    · simp only [Action.within, same, true_or]
    · refine .inr ⟨stop, { reached with current := machine.current }, ?_, limit, printed⟩
      simp only [Action.within, stopped]

end Outlasts

theorem outlasts_print (text : String) : Outlasts limits (print text) (print text) where
  prints machine := ⟨[text], by simp [leaves, print]⟩
  agrees _ := .inl rfl

section Loops

variable {condition condition' : Action Bool} {body body' : Action Completion}
  (tested : Outlasts limits condition condition') (done : Outlasts limits body body')

include tested done

theorem outlasts_round {rounds rounds' : Nat}
    (rest : Outlasts limits (repeatWhile condition body rounds')
      (repeatWhile condition' body' rounds)) :
    Outlasts limits (repeatWhile condition body (rounds' + 1))
      (repeatWhile condition' body' (rounds + 1)) := by
  rw [repeatWhile, repeatWhile]
  apply tested.bind
  intro holds
  cases holds with
  | false => exact .pure _
  | true =>
      apply done.bind
      intro completion
      cases completion with
      | finished => exact rest
      | returned value => exact .pure _

theorem outlasts_repeatWhile (unfinished : limits .unfinished) :
    ∀ {rounds rounds' : Nat}, rounds ≤ rounds' →
      Outlasts limits (repeatWhile condition body rounds')
        (repeatWhile condition' body' rounds)
  | 0, 0, _ => .throw _
  | 0, rounds' + 1, _ =>
    have longer := outlasts_repeatWhile unfinished (Nat.le_refl rounds')
    .stopped unfinished (outlasts_round tested done longer).prints
  | _ + 1, _ + 1, less =>
    outlasts_round tested done
      (outlasts_repeatWhile unfinished (Nat.le_of_succ_le_succ less))

end Loops

end Action

end LoxLang
