import LoxLang.Machine.Basic
import LoxLang.Proofs.Comparison.Values

/-! # Comparing two activities

Two activities on states of different kinds are compared step by step. A world says what
corresponds in the two states; it may grow while they run. Two activities follow each
other if from corresponding states they come to corresponding states, and either both
deliver or both stop for the same reason.
-/

namespace LoxLang

/-- Stops for the same reason, at corresponding words. Whether two defects correspond is a
parameter. -/
inductive Stop.Related (words : Occurrence → Occurrence → Prop) (defects : Prop) :
    Stop → Stop → Prop
  | error {word word' : Occurrence} (same : words word word') (cause : RuntimeCause) :
      Stop.Related words defects (.error ⟨word, cause⟩) (.error ⟨word', cause⟩)
  | unfinished : Stop.Related words defects .unfinished .unfinished
  | defect (allowed : defects) (defect : Defect) :
      Stop.Related words defects (.defect defect) (.defect defect)

/-- What it means that two states correspond in a world, and how worlds grow. -/
structure Comparison (State State' World : Type) where
  Grows : World → World → Prop
  Holds : World → State → State' → Prop
  Words : Occurrence → Occurrence → Prop
  defects : Prop
  refl : ∀ world, Grows world world
  trans : ∀ {first second third}, Grows first second → Grows second third →
    Grows first third

variable {State State' World α α' β β' : Type}

namespace Comparison

inductive Ends (comparison : Comparison State State' World) (world : World)
    (post : World → α → α' → Prop) :
    EStateM.Result Stop State α → EStateM.Result Stop State' α' → Prop
  | ok {grown : World} {result : α} {result' : α'} {state : State} {state' : State'}
      (grows : comparison.Grows world grown) (holds : comparison.Holds grown state state')
      (results : post grown result result') :
      comparison.Ends world post (.ok result state) (.ok result' state')
  | error {grown : World} {stop stop' : Stop} {state : State} {state' : State'}
      (grows : comparison.Grows world grown) (holds : comparison.Holds grown state state')
      (stops : Stop.Related comparison.Words comparison.defects stop stop') :
      comparison.Ends world post (.error stop state) (.error stop' state')

/-- From states that correspond in `world` both activities come to corresponding
outcomes. -/
def Follows (comparison : Comparison State State' World) (world : World)
    (left : Activity State α) (right : Activity State' α')
    (post : World → α → α' → Prop) : Prop :=
  ∀ state state', comparison.Holds world state state' →
    comparison.Ends world post (left state) (right state')

variable {comparison : Comparison State State' World} {world : World}
  {post : World → α → α' → Prop}

theorem Follows.pure {result : α} {result' : α'} (results : post world result result') :
    comparison.Follows world (pure result) (pure result') post :=
  fun _ _ holds => .ok (comparison.refl world) holds results

theorem Ends.weaken {outcome : EStateM.Result Stop State α}
    {outcome' : EStateM.Result Stop State' α'} {stronger : World → α → α' → Prop}
    (ends : comparison.Ends world stronger outcome outcome')
    (implies : ∀ grown result result', comparison.Grows world grown →
      stronger grown result result' → post grown result result') :
    comparison.Ends world post outcome outcome' := by
  cases ends with
  | ok grows holds results => exact .ok grows holds (implies _ _ _ grows results)
  | error grows holds stops => exact .error grows holds stops

theorem Ends.from {grown : World} {outcome : EStateM.Result Stop State α}
    {outcome' : EStateM.Result Stop State' α'}
    (ends : comparison.Ends grown post outcome outcome')
    (before : comparison.Grows world grown) :
    comparison.Ends world post outcome outcome' := by
  cases ends with
  | ok grows holds results => exact .ok (comparison.trans before grows) holds results
  | error grows holds stops => exact .error (comparison.trans before grows) holds stops

theorem Follows.bind {left : Activity State β} {right : Activity State' β'}
    {leftNext : β → Activity State α} {rightNext : β' → Activity State' α'}
    {middle : World → β → β' → Prop} (first : comparison.Follows world left right middle)
    (second : ∀ grown result result', comparison.Grows world grown →
      middle grown result result' →
      comparison.Follows grown (leftNext result) (rightNext result') post) :
    comparison.Follows world (left >>= leftNext) (right >>= rightNext) post := by
  intro state state' holds
  change comparison.Ends world post (EStateM.bind left leftNext state)
    (EStateM.bind right rightNext state')
  have ends := first state state' holds
  simp only [EStateM.bind]
  generalize left state = outcome at ends ⊢
  generalize right state' = outcome' at ends ⊢
  cases ends with
  | ok grows holds results => exact (second _ _ _ grows results _ _ holds).from grows
  | error grows holds stops => exact .error grows holds stops

theorem Follows.bind_right {left : Activity State α} {right : Activity State' β'}
    {rightNext : β' → Activity State' α'} {middle : World → α → β' → Prop}
    (first : comparison.Follows world left right middle)
    (second : ∀ grown result result', comparison.Grows world grown →
      middle grown result result' →
      comparison.Follows grown (Pure.pure result) (rightNext result') post) :
    comparison.Follows world left (right >>= rightNext) post := by
  rw [← bind_pure left]
  exact first.bind second

theorem Follows.weaken {left : Activity State α} {right : Activity State' α'}
    {stronger : World → α → α' → Prop}
    (follows : comparison.Follows world left right stronger)
    (implies : ∀ grown result result', comparison.Grows world grown →
      stronger grown result result' → post grown result result') :
    comparison.Follows world left right post :=
  fun state state' holds => (follows state state' holds).weaken implies

theorem Follows.map {left : Activity State β} {right : Activity State' β'}
    {transform : β → α} {transform' : β' → α'}
    (follows : comparison.Follows world left right fun grown result result' =>
      post grown (transform result) (transform' result')) :
    comparison.Follows world (transform <$> left) (transform' <$> right) post := by
  rw [map_eq_pure_bind, map_eq_pure_bind]
  exact follows.bind fun _ _ _ _ results => .pure results

theorem Follows.congr {left left₁ : Activity State α} {right right₁ : Activity State' α'}
    (follows : comparison.Follows world left₁ right₁ post)
    (same : ∀ state state', comparison.Holds world state state' →
      left state = left₁ state ∧ right state' = right₁ state') :
    comparison.Follows world left right post := by
  intro state state' holds
  rcases same state state' holds with ⟨left, right⟩
  rw [left, right]
  exact follows state state' holds

theorem Follows.fail {word word' : Occurrence} (same : comparison.Words word word')
    (cause : RuntimeCause) :
    comparison.Follows world (Action.fail word cause) (Action.fail word' cause) post :=
  fun _ _ holds => .error (comparison.refl world) holds (.error same cause)

theorem Follows.defect (allowed : comparison.defects) (defect : Defect) :
    comparison.Follows world (Action.defect defect) (Action.defect defect) post :=
  fun _ _ holds => .error (comparison.refl world) holds (.defect allowed defect)

end Comparison

/-! ## What does not depend on the state -/

section Activities

variable {Home Home' : Type} {functions methods : Closure Home → Closure Home' → Prop}
  {comparison : Comparison State State' World} {world : World}

theorem Action.ofOperator_follows {word word' : Occurrence}
    (same : comparison.Words word word') {related : Value Home → Value Home' → Prop}
    {post : World → Value Home → Value Home' → Prop}
    {result : Except OperandFault (Value Home)}
    {result' : Except OperandFault (Value Home')}
    (results : Related.Result related result result')
    (implies : ∀ value value', related value value' → post world value value') :
    comparison.Follows world (ofOperator word result) (ofOperator word' result')
      post := by
  cases results with
  | ok values => exact .pure (implies _ _ values)
  | error fault => exact .fail same _

theorem Action.checkCall_follows {paren paren' : Occurrence}
    (same : comparison.Words paren paren') {callee : Value Home} {callee' : Value Home'}
    {arguments : List (Value Home)} {arguments' : List (Value Home')}
    (arities : callee.arity? = callee'.arity?)
    (lengths : arguments.length = arguments'.length) :
    comparison.Follows world (checkCall paren callee arguments)
      (checkCall paren' callee' arguments') fun _ _ _ =>
        callee.arity? = some arguments.length := by
  unfold checkCall
  rw [← arities, ← lengths]
  cases taken : callee.arity? with
  | none => exact .fail same _
  | some arity =>
      dsimp only
      split
      case isTrue equal => exact .pure (by rw [equal])
      case isFalse => exact .fail same _

inductive Completion.Related (related : Value Home → Value Home' → Prop) :
    Completion Home → Completion Home' → Prop
  | finished : Completion.Related related .finished .finished
  | returned {value : Value Home} {value' : Value Home'} (values : related value value') :
      Completion.Related related (.returned value) (.returned value')

theorem Completion.Related.value {related : Value Home → Value Home' → Prop}
    {completion : Completion Home} {completion' : Completion Home'}
    (same : Completion.Related related completion completion') (nil : related .nil .nil) :
    related completion.value completion'.value := by
  cases same with
  | finished => exact nil
  | returned values => exact values

theorem Action.repeatWhile_follows {related : World → Value Home → Value Home' → Prop}
    {invariant : World → Prop} {condition : Activity State Bool}
    {condition' : Activity State' Bool} {body : Activity State (Completion Home)}
    {body' : Activity State' (Completion Home')}
    (conditions : ∀ world, invariant world →
      comparison.Follows world condition condition' fun grown holds holds' =>
        holds = holds' ∧ invariant grown)
    (bodies : ∀ world, invariant world →
      comparison.Follows world body body' fun grown completion completion' =>
        Completion.Related (related grown) completion completion' ∧
          (completion = .finished → invariant grown))
    (limit : Nat) (start : invariant world) :
    comparison.Follows world (repeatWhile condition body limit)
      (repeatWhile condition' body' limit) fun grown completion completion' =>
        Completion.Related (related grown) completion completion' ∧
          (completion = .finished → invariant grown) := by
  induction limit generalizing world with
  | zero => exact fun _ _ holds => .error (comparison.refl world) holds .unfinished
  | succ limit induction =>
      rw [repeatWhile, repeatWhile]
      apply (conditions world start).bind
      rintro grown holds _ _ ⟨rfl, still⟩
      cases holds with
      | false => exact .pure ⟨.finished, fun _ => still⟩
      | true =>
          apply (bodies grown still).bind
          rintro grown _ _ _ ⟨finished | values, still⟩
          · exact induction (still rfl)
          · exact .pure ⟨.returned values, nofun⟩

end Activities

end LoxLang
