import LoxLang.Proofs.Comparison.Activities

/-! # Comparing activities up to defects

Sometimes two activities correspond only as long as the first of them does not come upon a
defect. Nothing is said about the second activity then. This is enough to compare programs
that are known to come upon no defects.
-/

namespace LoxLang

variable {State State' World α α' β β' : Type}

inductive IsDefective : EStateM.Result Stop State α → Prop
  | defect (defect : Defect) (state : State) :
      IsDefective (.error (.defect defect) state)

namespace Comparison

/-- From corresponding states both activities come to corresponding outcomes, unless the
left one comes upon a defect. -/
def Shadows (comparison : Comparison State State' World) (world : World)
    (left : Activity State α) (right : Activity State' α')
    (post : World → α → α' → Prop) : Prop :=
  ∀ state state', comparison.Holds world state state' →
    IsDefective (left state) ∨ comparison.Ends world post (left state) (right state')

variable {comparison : Comparison State State' World} {world : World}
  {post : World → α → α' → Prop}

theorem Follows.shadows {left : Activity State α} {right : Activity State' α'}
    (follows : comparison.Follows world left right post) :
    comparison.Shadows world left right post :=
  fun state state' holds => .inr (follows state state' holds)

namespace Shadows

theorem pure {result : α} {result' : α'} (results : post world result result') :
    comparison.Shadows world (pure result) (pure result') post :=
  (Follows.pure results).shadows

theorem defect (defect : Defect) (right : Activity State' α') :
    comparison.Shadows world (Action.defect defect) right post :=
  fun state _ _ => .inl (.defect defect state)

theorem fail {word word' : Occurrence} (same : comparison.Words word word')
    (cause : RuntimeCause) :
    comparison.Shadows world (Action.fail word cause) (Action.fail word' cause) post :=
  (Follows.fail same cause).shadows

theorem bind {left : Activity State β} {right : Activity State' β'}
    {leftNext : β → Activity State α} {rightNext : β' → Activity State' α'}
    {middle : World → β → β' → Prop} (first : comparison.Shadows world left right middle)
    (second : ∀ grown result result', comparison.Grows world grown →
      middle grown result result' →
      comparison.Shadows grown (leftNext result) (rightNext result') post) :
    comparison.Shadows world (left >>= leftNext) (right >>= rightNext) post := by
  intro state state' holds
  change IsDefective (EStateM.bind left leftNext state) ∨
    comparison.Ends world post (EStateM.bind left leftNext state)
      (EStateM.bind right rightNext state')
  have outcomes := first state state' holds
  simp only [EStateM.bind]
  generalize left state = outcome at outcomes ⊢
  generalize right state' = outcome' at outcomes ⊢
  cases outcomes with
  | inl defective =>
      cases defective with
      | defect defect state => exact .inl (.defect defect state)
  | inr ends =>
      cases ends with
      | ok grows holds results =>
          exact (second _ _ _ grows results _ _ holds).imp id fun ends => ends.from grows
      | error grows holds stops => exact .inr (.error grows holds stops)

theorem weaken {left : Activity State α} {right : Activity State' α'}
    {stronger : World → α → α' → Prop}
    (shadows : comparison.Shadows world left right stronger)
    (implies : ∀ grown result result', comparison.Grows world grown →
      stronger grown result result' → post grown result result') :
    comparison.Shadows world left right post :=
  fun state state' holds =>
    (shadows state state' holds).imp id fun ends => ends.weaken implies

theorem map {left : Activity State β} {right : Activity State' β'}
    {transform : β → α} {transform' : β' → α'}
    (shadows : comparison.Shadows world left right fun grown result result' =>
      post grown (transform result) (transform' result')) :
    comparison.Shadows world (transform <$> left) (transform' <$> right) post := by
  rw [map_eq_pure_bind, map_eq_pure_bind]
  exact shadows.bind fun _ _ _ _ results => .pure results

end Shadows

end Comparison

theorem Action.repeatWhile_shadows {Home Home' : Type}
    {comparison : Comparison State State' World}
    {related : Value Home → Value Home' → Prop}
    {condition : Activity State Bool} {condition' : Activity State' Bool}
    {body : Activity State (Completion Home)} {body' : Activity State' (Completion Home')}
    (conditions : ∀ world, comparison.Shadows world condition condition'
      fun _ holds holds' => holds = holds')
    (bodies : ∀ world, comparison.Shadows world body body'
      fun _ completion completion' => Completion.Related related completion completion')
    (limit : Nat) {world : World} :
    comparison.Shadows world (repeatWhile condition body limit)
      (repeatWhile condition' body' limit) fun _ completion completion' =>
        Completion.Related related completion completion' := by
  induction limit generalizing world with
  | zero => exact fun _ _ holds => .inr (.error (comparison.refl world) holds .unfinished)
  | succ limit induction =>
      rw [repeatWhile, repeatWhile]
      apply (conditions world).bind
      intro grown holds _ _ same
      subst same
      cases holds with
      | false => exact .pure .finished
      | true =>
          apply (bodies grown).bind
          intro _ completion completion' _ completions
          cases completions with
          | finished => exact induction
          | returned values => exact .pure (.returned values)

end LoxLang
