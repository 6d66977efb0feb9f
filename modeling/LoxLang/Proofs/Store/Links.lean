import Mathlib.Data.Nat.Find

/-! # Chains of links

Frames are linked to the frames around them, and classes to their superclasses. What is
looked up along such links is found in the nearest place that has it, counted in links. Two
places at the same number of links are the same, so there is at most one nearest place, and
there is none only if no place on the chain has what is looked for.
-/

namespace LoxLang

section Links

variable {α : Type} {next : α → Option α} {has : α → Prop} {start middle found other : α}
  {steps steps' : Nat}

inductive Linked (next : α → Option α) : α → Nat → α → Prop
  | self (start : α) : Linked next start 0 start
  | link {start middle found : α} {steps : Nat} (first : next start = some middle)
      (others : Linked next middle steps found) : Linked next start (steps + 1) found

/-- The nearest place that has something, at a number of links from a start. -/
structure Nearest (next : α → Option α) (has : α → Prop) (start : α) (steps : Nat)
    (found : α) : Prop where
  linked : Linked next start steps found
  holds : has found
  first : ∀ fewer < steps, ∀ other, Linked next start fewer other → ¬has other

theorem Linked.unique (linked : Linked next start steps found)
    (linked' : Linked next start steps other) : other = found := by
  induction linked with
  | self =>
      cases linked'
      rfl
  | link first _ induction =>
      cases linked' with
      | link first' others' =>
          rcases Option.some.inj (first.symm.trans first') with rfl
          exact induction others'

namespace Nearest

theorem self (here : has start) : Nearest next has start 0 start :=
  ⟨.self start, here, nofun⟩

theorem link (lacks : ¬has start) (first : next start = some middle)
    (nearest : Nearest next has middle steps found) :
    Nearest next has start (steps + 1) found where
  linked := .link first nearest.linked
  holds := nearest.holds
  first fewer fewer_lt other linked := by
    cases linked with
    | self => exact lacks
    | link first' others =>
        rcases Option.some.inj (first.symm.trans first') with rfl
        exact nearest.first _ (Nat.lt_of_succ_lt_succ fewer_lt) other others

theorem eq_start (nearest : Nearest next has start steps found) (here : has start) :
    steps = 0 ∧ found = start := by
  cases steps with
  | zero => exact ⟨rfl, (Linked.self start).unique nearest.linked⟩
  | succ steps => exact absurd here (nearest.first 0 (Nat.succ_pos steps) start (.self start))

theorem exists_next (nearest : Nearest next has start steps found) (lacks : ¬has start) :
    ∃ middle fewer, next start = some middle ∧ steps = fewer + 1 ∧
      Nearest next has middle fewer found := by
  rcases nearest with ⟨linked, holds, isFirst⟩
  cases linked with
  | self => exact absurd holds lacks
  | @link _ middle _ fewer first others =>
      refine ⟨middle, fewer, first, rfl, others, holds, ?_⟩
      intro fewer fewer_lt other linked
      exact isFirst (fewer + 1) (Nat.succ_lt_succ fewer_lt) other (.link first linked)

theorem unique (nearest : Nearest next has start steps found)
    (nearest' : Nearest next has start steps' other) : steps' = steps ∧ other = found := by
  rcases Nat.lt_trichotomy steps steps' with fewer | rfl | more
  · exact absurd nearest.holds (nearest'.first _ fewer _ nearest.linked)
  · exact ⟨rfl, nearest.linked.unique nearest'.linked⟩
  · exact absurd nearest'.holds (nearest.first _ more _ nearest'.linked)

end Nearest

theorem nearest_or_none (next : α → Option α) (has : α → Prop) (start : α) :
    (∃ steps found, Nearest next has start steps found) ∨
      ∀ steps other, Linked next start steps other → ¬has other := by
  classical
  by_cases some_ : ∃ steps other, Linked next start steps other ∧ has other
  · rcases Nat.find_spec some_ with ⟨found, linked, here⟩
    refine .inl ⟨Nat.find some_, found, linked, here, ?_⟩
    intro fewer fewer_lt other linked' there
    exact Nat.find_min some_ fewer_lt ⟨other, linked', there⟩
  · exact .inr fun steps other linked here => some_ ⟨steps, other, linked, here⟩

end Links

end LoxLang
