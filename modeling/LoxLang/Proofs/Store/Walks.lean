import LoxLang.Proofs.Objects.Methods
import LoxLang.Proofs.Store.Lookup

/-! # Walks along links

Looking something up means to walk from link to link, with no bound on the number of links,
until a place has it or no link goes on. Such a walk need not end. It does if each link of
the chain leads to something that is older: then there are no more links than things that
are older than the start.
-/

namespace LoxLang

section Walks

variable {α : Type} {next : α → Option α} {has : α → Prop} {start middle found other : α}
  {age : α → Nat} {steps : Nat} {result : Option α}

/-- What a walk that has no bound comes to, after a number of links. -/
inductive Walk (next : α → Option α) (has : α → Prop) : α → Nat → Option α → Prop
  | here {start : α} (holds : has start) : Walk next has start 0 (some start)
  | nowhere {start : α} (lacks : ¬has start) (last : next start = none) :
      Walk next has start 0 none
  | link {start middle : α} {steps : Nat} {result : Option α} (lacks : ¬has start)
      (first : next start = some middle) (others : Walk next has middle steps result) :
      Walk next has start (steps + 1) result

/-- Every link of the chain from the start leads to something older. -/
def LeadsBack (next : α → Option α) (age : α → Nat) (start : α) : Prop :=
  ∀ steps other further, Linked next start steps other → next other = some further →
    age further < age other

structure EndsAt (next : α → Option α) (start : α) (length : Nat) (last : α) : Prop where
  linked : Linked next start length last
  final : next last = none

theorem LeadsBack.further (leadsBack : LeadsBack next age start)
    (first : next start = some middle) : LeadsBack next age middle ∧ age middle < age start :=
  ⟨fun steps other further linked => leadsBack (steps + 1) other further (.link first linked),
    leadsBack 0 start middle (.self start) first⟩

theorem LeadsBack.exists_endsAt (leadsBack : LeadsBack next age start) :
    ∃ length last, length ≤ age start ∧ EndsAt next start length last := by
  induction years : age start using Nat.strongRecOn generalizing start with
  | ind years induction =>
      subst years
      cases isNext : next start with
      | none => exact ⟨0, start, Nat.zero_le _, .self start, isNext⟩
      | some middle =>
          rcases leadsBack.further isNext with ⟨leadsBack', older⟩
          rcases induction _ older leadsBack' rfl with ⟨length, last, enough, linked, final⟩
          exact ⟨length + 1, last, Nat.lt_of_le_of_lt enough older, .link isNext linked,
            final⟩

/-- A walk along a chain that leads back comes to an end, whatever it looks for. -/
theorem LeadsBack.exists_walk (leadsBack : LeadsBack next age start) (has : α → Prop) :
    ∃ steps result, steps ≤ age start ∧ Walk next has start steps result := by
  induction years : age start using Nat.strongRecOn generalizing start with
  | ind years induction =>
      subst years
      by_cases holds : has start
      · exact ⟨0, some start, Nat.zero_le _, .here holds⟩
      · cases isNext : next start with
        | none => exact ⟨0, none, Nat.zero_le _, .nowhere holds isNext⟩
        | some middle =>
            rcases leadsBack.further isNext with ⟨leadsBack', older⟩
            rcases induction _ older leadsBack' rfl with ⟨steps, result, enough, walk⟩
            exact ⟨steps + 1, result, Nat.lt_of_le_of_lt enough older,
              .link holds isNext walk⟩

theorem Walk.nearest (walk : Walk next has start steps result) :
    ∀ found ∈ result, Nearest next has start steps found := by
  induction walk with
  | here holds =>
      intro found isFound
      rcases Option.some.inj isFound with rfl
      exact .self holds
  | nowhere => exact nofun
  | link lacks first _ induction =>
      exact fun found isFound => (induction found isFound).link lacks first

theorem Walk.lacks (walk : Walk next has start steps none) :
    ∀ {steps' other}, Linked next start steps' other → ¬has other := by
  generalize none_ : (none : Option α) = result at walk
  induction walk with
  | here => cases none_
  | nowhere lacks last =>
      intro steps' other linked
      cases linked with
      | self => exact lacks
      | link first => cases first.symm.trans last
  | link lacks first _ induction =>
      intro steps' other linked
      cases linked with
      | self => exact lacks
      | link first' others =>
          rcases Option.some.inj (first.symm.trans first') with rfl
          exact induction none_ others

theorem EndsAt.le {length : Nat} {last : α} (ends : EndsAt next start length last)
    (linked : Linked next start steps other) : steps ≤ length := by
  rcases ends with ⟨toLast, final⟩
  induction linked generalizing length with
  | self => exact Nat.zero_le _
  | link first _ induction =>
      cases toLast with
      | self => cases first.symm.trans final
      | link first' others' =>
          rcases Option.some.inj (first.symm.trans first') with rfl
          exact Nat.succ_le_succ (induction others')

theorem EndsAt.exists_linked {length : Nat} {last : α}
    (ends : EndsAt next start length last) (enough : steps ≤ length) :
    ∃ other, Linked next start steps other := by
  rcases ends with ⟨toLast, final⟩
  induction toLast generalizing steps with
  | self start => exact ⟨start, Nat.le_zero.mp enough ▸ .self start⟩
  | @link start _ _ _ first _ induction =>
      cases steps with
      | zero => exact ⟨start, .self start⟩
      | succ steps =>
          rcases induction (Nat.le_of_succ_le_succ enough) final with ⟨other, linked⟩
          exact ⟨other, .link first linked⟩

end Walks

/-! ## Frames -/

namespace Frames

variable {frames : Frames} {frame outer : FrameId} {name : String} {steps : Nat}
  {result : Option FrameId}

theorem Ordered.leadsBack (ordered : frames.Ordered) (frame : FrameId) :
    LeadsBack frames.enclosing? id frame :=
  fun _ other outer _ enclosed => ordered other outer enclosed

theorem home?_of_walk (ordered : frames.Ordered) (exists_ : frame < frames.size)
    (walk : Walk frames.enclosing? (frames.Has · name) frame steps result) :
    frames.home? frame name = result := by
  cases result with
  | some home =>
      exact (home?_eq_some_iff ordered exists_).mpr ⟨steps, walk.nearest home rfl⟩
  | none => exact home?_eq_none ordered exists_ fun _ _ encloses => walk.lacks encloses

theorem ancestor?_eq_some_iff :
    frames.ancestor? frame steps = some outer ↔ frames.Encloses frame steps outer := by
  refine ⟨fun found => ?_, ancestor?_of_encloses⟩
  induction steps generalizing frame with
  | zero =>
      rcases Option.some.inj found with rfl
      exact .self frame
  | succ steps induction =>
      cases enclosed : frames.enclosing? frame with
      | none =>
          rw [ancestor?, outward?, enclosed] at found
          cases steps <;> cases found
      | some middle =>
          rw [ancestor?_succ enclosed] at found
          exact .link enclosed (induction found)

theorem isSome_ancestor?_iff {length : Nat} {root : FrameId}
    (ends : EndsAt frames.enclosing? frame length root) :
    (frames.ancestor? frame steps).isSome ↔ steps ≤ length := by
  rw [Option.isSome_iff_exists]
  constructor
  · rintro ⟨outer, found⟩
    exact ends.le (ancestor?_eq_some_iff.mp found)
  · intro enough
    rcases ends.exists_linked enough with ⟨outer, encloses⟩
    exact ⟨outer, ancestor?_of_encloses encloses⟩

theorem Ordered.le_of_encloses (ordered : frames.Ordered)
    (encloses : frames.Encloses frame steps outer) : outer ≤ frame := by
  induction encloses with
  | self => exact Nat.le_refl _
  | link first _ induction => exact Nat.le_trans induction (Nat.le_of_lt (ordered _ _ first))

end Frames

/-! ## Classes -/

namespace Class

variable {description : Class} {name : String} {steps : Nat} {result : Option Class}

def Has (description : Class) (name : String) : Prop :=
  (description.methods.get? name).isSome

theorem findMethod?_of_walk (walk : Walk superclass (Has · name) description steps result) :
    description.findMethod? name = result.bind (·.methods.get? name) := by
  induction walk with
  | @here description holds =>
      rcases Option.isSome_iff_exists.mp holds with ⟨method, isMethod⟩
      cases description
      rw [findMethod?_mk, Option.bind_some, isMethod]
      rfl
  | @nowhere description lacks last =>
      rw [Has, Option.not_isSome_iff_eq_none] at lacks
      rcases description with ⟨identity, own, above, methods⟩
      rcases (last : above = none) with rfl
      rw [findMethod?_mk, lacks]
      rfl
  | @link description parent steps result lacks first _ induction =>
      rw [Has, Option.not_isSome_iff_eq_none] at lacks
      rcases description with ⟨identity, own, above, methods⟩
      rcases (first : above = some parent) with rfl
      rw [findMethod?_mk, lacks, Option.none_or, Option.bind_some, induction]

end Class

end LoxLang
