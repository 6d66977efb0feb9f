import LoxLang.Machine.Objects
import LoxLang.Proofs.Lexical.World
import LoxLang.Proofs.Store.Frames

/-! # Steps of the two machines

Each step of the machine with frames is followed by the steps of the machine with cells
that belong to it. New frames have no cells. A declaration takes a cell for its name,
which thereby becomes known in its frame, and a definition fills the cell.
-/

namespace LoxLang.Lexical

open Comparison

namespace World

variable (world : World)

def withFrame (outer : FrameId) : World :=
  { world with
    frameCount := world.frameCount + 1
    enclosing := fun frame =>
      if frame = world.frameCount then some outer else world.enclosing frame
    positive := Nat.succ_pos _
    outermost := by
      have old : LoxLang.Machine.globals ≠ world.frameCount := Nat.ne_of_lt world.positive
      rw [if_neg old]
      exact world.outermost
    enclosing_lt := by
      intro frame enclosing found
      split at found
      case isTrue new => exact new ▸ Nat.lt_succ_self _
      case isFalse => exact Nat.lt_succ_of_lt (world.enclosing_lt found)
    frame_lt := fun found => Nat.lt_succ_of_lt (world.frame_lt found) }

def withCell (frame : FrameId) (name : String) (exists_ : frame < world.frameCount)
    (local_ : frame ≠ LoxLang.Machine.globals) : World :=
  { world with
    cellCount := world.cellCount + 1
    cellOf := fun other asked =>
      if other = frame ∧ asked = name then some world.cellCount
        else world.cellOf other asked
    frame_lt := by
      intro other asked cell found
      split at found
      case isTrue here => exact here.1 ▸ exists_
      case isFalse => exact world.frame_lt found
    cell_lt := by
      intro other asked cell found
      split at found
      case isTrue => exact Option.some.inj found ▸ Nat.lt_succ_self _
      case isFalse => exact Nat.lt_succ_of_lt (world.cell_lt found)
    injective := by
      intro first name₁ cell second name₂ found found'
      split at found <;> split at found'
      case isTrue.isTrue here here' =>
        exact ⟨here.1.trans here'.1.symm, here.2.trans here'.2.symm⟩
      case isTrue.isFalse =>
        have less := world.cell_lt found'
        rw [← Option.some.inj found] at less
        exact absurd less (Nat.lt_irrefl _)
      case isFalse.isTrue =>
        have less := world.cell_lt found
        rw [← Option.some.inj found'] at less
        exact absurd less (Nat.lt_irrefl _)
      case isFalse.isFalse => exact world.injective found found'
    globals := by
      intro name'
      rw [if_neg fun here => local_ here.1.symm]
      exact world.globals name' }

def fill (cell : Cell) : World :=
  { world with Full := fun other => other = cell ∨ world.Full other }

variable {world} {own : Option FrameId}

theorem grows_withFrame (outer : FrameId) : world.Grows own (world.withFrame outer) where
  settled := rfl
  frameCount := Nat.le_succ _
  enclosing := by
    intro frame enclosing found
    have less := world.enclosing_lt found
    simp only [withFrame, if_neg (Nat.ne_of_lt less), found]
  cellOf found := found
  full filled := filled
  unchanged _ _ _ _ := rfl

theorem grows_withCell {frame : FrameId} {name : String}
    (exists_ : frame < world.frameCount) (local_ : frame ≠ LoxLang.Machine.globals)
    (new : world.cellOf frame name = none) :
    world.Grows (some frame) (world.withCell frame name exists_ local_) where
  settled := rfl
  frameCount := Nat.le_refl _
  enclosing found := found
  cellOf := by
    intro other asked cell found
    have different : ¬(other = frame ∧ asked = name) := by
      rintro ⟨rfl, rfl⟩
      rw [new] at found
      cases found
    simp only [withCell, if_neg different, found]
  full filled := filled
  unchanged := by
    intro other _ notOwn asked
    have different : ¬(other = frame ∧ asked = name) := fun here => notOwn (by rw [here.1])
    simp only [withCell, if_neg different]

theorem grows_fill (cell : Cell) : world.Grows own (world.fill cell) :=
  { Grows.refl world with full := .inr }

end World

/-! ## Frames -/

section Frames

variable {world : World} {frame : FrameId} {own : Option FrameId} {α α' : Type}
  {post : World → α → α' → Prop}

theorem ends_ofOwn {own' : Option FrameId} {start : World}
    {outcome : EStateM.Result Stop LoxLang.Machine α}
    {outcome' : EStateM.Result Stop Machine α'}
    (ends : (comparison frame own').Ends start post outcome outcome')
    (implies : ∀ later, start.Grows own' later → world.Grows own later) :
    (comparison frame own).Ends world post outcome outcome' := by
  cases ends with
  | ok grows holds results => exact .ok (implies _ grows) holds results
  | error grows holds stops => exact .error (implies _ grows) holds stops

theorem World.Holds.push {machine : LoxLang.Machine} {machine' : Machine}
    (holds : world.Holds frame machine machine') (outer : FrameId) :
    (world.withFrame outer).Holds frame
      { machine with frames := machine.frames.push (some outer) } machine' := by
  have grows : world.Grows none (world.withFrame outer) := World.grows_withFrame outer
  have old : ∀ other, other < world.frameCount → ∀ name,
      (machine.frames.push (some outer)).here? other name =
        machine.frames.here? other name :=
    fun other exists_ name => Frames.here?_push_of_lt _ (holds.frameCount ▸ exists_) name
  have new : ∀ other, world.frameCount ≤ other → ∀ name,
      (machine.frames.push (some outer)).here? other name = none := by
    intro other missing name
    rcases Nat.eq_or_lt_of_le missing with rfl | less
    · rw [← holds.frameCount, Frames.here?_push_size]
    · exact Frames.here?_of_size_le _ (by rw [Frames.size_push, holds.frameCount]; exact less) _
  exact {
    holds with
    frame_lt := Nat.lt_succ_of_lt holds.frame_lt
    frameCount := by simp only [Frames.size_push, holds.frameCount, World.withFrame]
    enclosing := by
      intro other
      simp only [Frames.enclosing?_push, holds.frameCount, World.withFrame,
        holds.enclosing]
    cells := by
      intro other name cell found
      rw [old _ (world.frame_lt found)]
      exact rel_imp (holds.cells found) fun _ _ values => values.mono grows
    unnamed := by
      intro other name local_ unnamed
      rcases Nat.lt_or_ge other world.frameCount with exists_ | missing
      · rw [old _ exists_]
        exact holds.unnamed local_ unnamed
      · exact new _ missing name
    supers := by
      intro other value local_ found
      rcases Nat.lt_or_ge other world.frameCount with exists_ | missing
      · rw [old _ exists_] at found
        exact holds.supers local_ found
      · rw [new _ missing] at found
        cases found
    globals := by
      rw [Frames.namesOf_push, if_neg]
      · exact holds.globals.imp fun _ _ values => values.mono grows
      · rw [holds.frameCount]
        exact Nat.ne_of_lt world.positive
    objects := fun object =>
      rel_imp (holds.objects object) fun _ _ fields => fields.imp fun _ _ values =>
        values.mono grows }

theorem follows_newFrame {outer : FrameId} {next : FrameId → LoxLang.Action α}
    {right : Action α'}
    (follows : (comparison frame (some world.frameCount)).Follows (world.withFrame outer)
      (next world.frameCount) right post) :
    (comparison frame own).Follows world (Action.newFrame outer >>= next) right post := by
  intro machine machine' holds
  have number : machine.frames.size = world.frameCount := World.Holds.frameCount holds
  have ends : (comparison frame (some world.frameCount)).Ends (world.withFrame outer) post
      ((Action.newFrame outer >>= next) machine) (right machine') := by
    have ends := follows _ _ (World.Holds.push holds outer)
    rw [← number] at ends ⊢
    exact ends
  exact ends_ofOwn ends fun later grows =>
    ((World.grows_withFrame outer).trans grows).ofNew (Nat.le_refl _)

theorem follows_within {inner : FrameId} {left : LoxLang.Action α} {right : Action α'}
    (exists_ : inner < world.frameCount)
    (follows : (comparison inner own).Follows world left right post) :
    (comparison frame own).Follows world (Action.within inner left) right post := by
  intro machine machine' holds
  have ends := follows { machine with current := inner } machine'
    { holds with current := rfl, frame_lt := exists_ }
  have back : ∀ {later : World} {machine₁ : LoxLang.Machine} {machine₁' : Machine},
      world.Grows own later → later.Holds inner machine₁ machine₁' →
        later.Holds frame { machine₁ with current := machine.current } machine₁' :=
    fun grows holds₁ => { holds₁ with
      current := holds.current
      frame_lt := Nat.lt_of_lt_of_le holds.frame_lt grows.frameCount }
  unfold Action.within
  simp only
  generalize left { machine with current := inner } = outcome at ends ⊢
  generalize right machine' = outcome' at ends ⊢
  cases ends with
  | ok grows holds results => exact .ok grows (back grows holds) results
  | error grows holds stops => exact .error grows (back grows holds) stops

theorem follows_currentFrame {next : FrameId → LoxLang.Action α} {right : Action α'}
    (follows : (comparison frame own).Follows world (next frame) right post) :
    (comparison frame own).Follows world (Action.currentFrame >>= next) right post := by
  intro machine machine' holds
  have ends := follows machine machine' holds
  rw [← holds.current] at ends
  exact holds.current ▸ ends

end Frames

/-! ## Cells -/

section Cells

variable {world : World} {current frame : FrameId} {own : Option FrameId} {name : String}
  {α α' : Type} {post : World → α → α' → Prop}

theorem World.Holds.takeCell {machine : LoxLang.Machine} {machine' : Machine}
    (holds : world.Holds current machine machine') (exists_ : frame < world.frameCount)
    (local_ : frame ≠ LoxLang.Machine.globals) (new : world.cellOf frame name = none) :
    (world.withCell frame name exists_ local_).Holds current machine
      { machine' with cells := machine'.cells.push none } := by
  have grows := World.grows_withCell exists_ local_ new
  exact {
    holds with
    cellCount := by simp [holds.cellCount, World.withCell]
    cells := by
      intro other asked cell found
      simp only [World.withCell] at found
      split at found
      case isTrue here =>
        rcases Option.some.inj found with rfl
        rw [here.1, here.2, holds.unnamed local_ new, ← holds.cellCount]
        simp
      case isFalse =>
        have less := world.cell_lt found
        rw [Array.getElem?_push_lt (holds.cellCount ▸ less),
          ← Array.getElem?_eq_getElem (holds.cellCount ▸ less)]
        exact rel_imp (holds.cells found) fun _ _ values => values.mono grows
    full := by
      intro cell filled
      have some := holds.full filled
      have less : cell < machine'.cells.size := by
        rcases Nat.lt_or_ge cell machine'.cells.size with less | missing
        · exact less
        · simp [Array.getElem?_eq_none missing] at some
      rwa [Array.getElem?_push_lt less, ← Array.getElem?_eq_getElem less]
    unnamed := by
      intro other asked local_' unnamed
      simp only [World.withCell] at unnamed
      split at unnamed
      case isTrue => cases unnamed
      case isFalse => exact holds.unnamed local_' unnamed
    globals := holds.globals.imp fun _ _ values => values.mono grows
    objects := fun object =>
      rel_imp (holds.objects object) fun _ _ fields => fields.imp fun _ _ values =>
        values.mono grows }

theorem follows_newCell {left : LoxLang.Action α} {next : Cell → Action α'}
    (exists_ : frame < world.frameCount) (local_ : frame ≠ LoxLang.Machine.globals)
    (new : world.cellOf frame name = none)
    (follows : (comparison current (some frame)).Follows
      (world.withCell frame name exists_ local_)
      left (next world.cellCount) post) :
    (comparison current (some frame)).Follows world left (newCell >>= next) post := by
  intro machine machine' holds
  have number : machine'.cells.size = world.cellCount := World.Holds.cellCount holds
  have ends := follows _ _ (World.Holds.takeCell holds exists_ local_ new)
  rw [← number] at ends
  exact ends.from (World.grows_withCell exists_ local_ new)

theorem World.Holds.define {machine : LoxLang.Machine} {machine' : Machine} {cell : Cell}
    {value : Value} {value' : Value View} (holds : world.Holds current machine machine')
    (found : world.cellOf frame name = some cell)
    (isClass : name = "super" → ∃ description, value = .classValue description)
    (values : (world.fill cell).Values value value') :
    (world.fill cell).Holds current
      { machine with frames := machine.frames.define frame name value }
      { machine' with cells := machine'.cells.setIfInBounds cell (some value') } := by
  have grows : world.Grows none (world.fill cell) := World.grows_fill cell
  have local_ : frame ≠ LoxLang.Machine.globals := by
    rintro rfl
    rw [world.globals] at found
    cases found
  have exists_ : frame < machine.frames.size := holds.frameCount ▸ world.frame_lt found
  have less : cell < machine'.cells.size := holds.cellCount ▸ world.cell_lt found
  exact {
    holds with
    frameCount := (Frames.size_define _).trans holds.frameCount
    enclosing := fun other => (Frames.enclosing?_define _).trans (holds.enclosing other)
    cellCount := by simp only [Array.size_setIfInBounds, holds.cellCount, World.fill]
    cells := by
      intro other asked cell' found'
      rw [Frames.here?_define _ exists_]
      split
      case isTrue here =>
        rcases here with ⟨rfl, rfl⟩
        obtain rfl : cell = cell' := Option.some.inj (found.symm.trans found')
        simpa [Array.getElem?_setIfInBounds, less] using Option.Rel.some values
      case isFalse elsewhere =>
        have different : cell ≠ cell' := by
          rintro rfl
          exact elsewhere (world.injective found found')
        rw [Array.getElem?_setIfInBounds_ne different]
        exact rel_imp (holds.cells found') fun _ _ values => values.mono grows
    full := by
      intro other filled
      by_cases same : cell = other
      · subst same
        simp [less]
      · rw [Array.getElem?_setIfInBounds_ne same]
        exact holds.full (filled.resolve_left fun equal => same equal.symm)
    unnamed := by
      intro other asked local_' unnamed
      rw [Frames.here?_define _ exists_, if_neg]
      · exact holds.unnamed local_' unnamed
      · rintro ⟨rfl, rfl⟩
        exact absurd (found.symm.trans unnamed) (by simp)
    supers := by
      intro other value₁ local_' found'
      rw [Frames.here?_define _ exists_] at found'
      split at found'
      case isTrue here =>
        rcases Option.some.inj found' with rfl
        exact isClass here.2
      case isFalse => exact holds.supers local_' found'
    globals := by
      rw [Frames.namesOf_define _ exists_, if_neg local_]
      exact holds.globals.imp fun _ _ values => values.mono grows
    objects := fun object =>
      rel_imp (holds.objects object) fun _ _ fields => fields.imp fun _ _ values =>
        values.mono grows }

theorem follows_define {cell : Cell} {value : Value} {value' : Value View}
    (found : world.cellOf frame name = some cell)
    (isClass : name = "super" → ∃ description, value = .classValue description)
    (values : (world.fill cell).Values value value') :
    (comparison current own).Follows world (Action.defineIn frame name value)
      (write cell value')
      fun grown _ _ => grown = world.fill cell :=
  fun _ _ holds => .ok (World.grows_fill cell)
    (World.Holds.define holds found isClass values) rfl

end Cells

/-! ## Global names -/

section Globals

variable {world : World} {frame : FrameId} {own : Option FrameId}

theorem World.Holds.outermost {machine : LoxLang.Machine} {machine' : Machine}
    (holds : world.Holds frame machine machine') :
    machine.frames.enclosing? LoxLang.Machine.globals = none ∧ 0 < machine.frames.size :=
  ⟨(holds.enclosing _).trans world.outermost, holds.frameCount ▸ world.positive⟩

theorem World.Holds.defineGlobal {machine : LoxLang.Machine} {machine' : Machine}
    {name : String} {value : Value} {value' : Value View}
    (holds : world.Holds frame machine machine') (values : world.Values value value') :
    world.Holds frame
      { machine with frames := machine.frames.define LoxLang.Machine.globals name value }
      { machine' with globals := machine'.globals.bind name value' } := by
  have exists_ : LoxLang.Machine.globals < machine.frames.size := holds.outermost.2
  have others : ∀ other, other ≠ LoxLang.Machine.globals → ∀ asked,
      (machine.frames.define LoxLang.Machine.globals name value).here? other asked =
        machine.frames.here? other asked := by
    intro other local_ asked
    rw [Frames.here?_define _ exists_, if_neg fun here => local_ here.1.symm]
  exact {
    holds with
    frameCount := (Frames.size_define _).trans holds.frameCount
    enclosing := fun other => (Frames.enclosing?_define _).trans (holds.enclosing other)
    cells := by
      intro other asked cell found
      rw [others other _]
      · exact holds.cells found
      · rintro rfl
        rw [world.globals] at found
        cases found
    unnamed := fun local_ unnamed =>
      (others _ local_ _).trans (holds.unnamed local_ unnamed)
    supers := fun local_ found =>
      holds.supers local_ ((others _ local_ _).symm.trans found)
    globals := by
      rw [Frames.namesOf_define _ exists_, if_pos rfl]
      exact holds.globals.bind name values }

theorem follows_defineGlobal {name : String} {value : Value} {value' : Value View}
    (values : world.Values value value') :
    (comparison frame own).Follows world
      (Action.defineIn LoxLang.Machine.globals name value)
      (defineGlobal name value') fun grown _ _ => grown = world :=
  fun _ _ holds => .ok (.refl _) (World.Holds.defineGlobal holds values) rfl

theorem follows_globalValue {name : Occurrence} :
    (comparison frame own).Follows world (Action.globalValue name) (globalValue name)
      World.Values := by
  intro machine machine' holds
  have outermost := World.Holds.outermost holds
  unfold Action.globalValue globalValue
  rw [Frames.get?_outermost outermost.1 outermost.2]
  rcases rel_cases ((World.Holds.globals holds).get? name.lexeme) with
      ⟨left, right⟩ | ⟨_, _, left, right, values⟩ <;> rw [left, right]
  · exact .error (.refl _) holds (.error rfl _)
  · exact .ok (.refl _) holds values

theorem follows_assignGlobal {name : Occurrence} {value : Value} {value' : Value View}
    (values : world.Values value value') :
    (comparison frame own).Follows world (Action.assignGlobal name value)
      (assignGlobal name value') fun _ _ _ => True := by
  intro machine machine' holds
  have outermost := World.Holds.outermost holds
  unfold Action.assignGlobal assignGlobal
  rw [Frames.assign?_outermost outermost.1 outermost.2,
    (World.Holds.globals holds).contains name.lexeme]
  cases machine'.globals.contains name.lexeme with
  | false => exact .error (.refl _) holds (.error rfl _)
  | true => exact .ok (.refl _) (World.Holds.defineGlobal holds values) trivial

end Globals

/-! ## Local names -/

section Locals

variable {world : World} {frame : FrameId} {own : Option FrameId} {scopes : Scopes}
    {view : View}
  {name : String}

theorem Aligned.cell?_of_global (aligned : Aligned world scopes frame view)
    (unbound : scopes.distance? name = none) : view.cell? name = none := by
  induction aligned with
  | topLevel => rfl
  | @inside scope outer _ _ _ _ _ _ _ elsewhere outerGlobal =>
      rw [Scopes.distance?_cons] at unbound
      split at unbound
      case isTrue => cases unbound
      case isFalse missing =>
        have undeclared : scope.get? name = none := by
          simpa [Bindings.contains] using missing
        rw [View.cell?_inside, elsewhere name undeclared]
        exact outerGlobal (by simpa using unbound)

def World.Outward (world : World) : Nat → FrameId → FrameId → Prop
  | 0, frame, target => frame = target
  | steps + 1, frame, target =>
    ∃ outer, world.enclosing frame = some outer ∧ world.Outward steps outer target

theorem World.Holds.ancestor? {machine : LoxLang.Machine} {machine' : Machine}
    (holds : world.Holds frame machine machine') {steps : Nat} {start target : FrameId}
    (outward : world.Outward steps start target) :
    machine.frames.ancestor? start steps = some target := by
  induction steps generalizing start with
  | zero => exact outward ▸ Frames.ancestor?_zero _
  | succ steps induction =>
      rcases outward with ⟨outer, enclosed, outward⟩
      rw [Frames.ancestor?_succ ((holds.enclosing _).trans enclosed), induction outward]

/-- A name is found at its distance, and the cell that stands for it there is the one in
the view. -/
theorem Aligned.lookup (aligned : Aligned world scopes frame view) {distance : Nat}
    (bound : scopes.distance? name = some distance) :
    ∃ target cell, world.Outward distance frame target ∧
      world.cellOf target name = some cell ∧
      view.cell? name = some cell ∧
        (scopes.state? name ≠ some false → world.Full cell) := by
  induction aligned generalizing distance with
  | topLevel => simp [Scopes.distance?] at bound
  | @inside scope outer frame _ _ _ _ enclosed here elsewhere outerLookup =>
      rw [Scopes.distance?_cons] at bound
      split at bound
      case isTrue declared =>
        rcases Option.some.inj bound with rfl
        rcases Option.isSome_iff_exists.mp declared with ⟨complete, state⟩
        rcases here name complete state with ⟨cell, inFrame, inView, full⟩
        refine ⟨frame, cell, rfl, inFrame, inView, fun notFalse => full ?_⟩
        simpa [Scopes.state?, state] using notFalse
      case isFalse missing =>
        have undeclared : scope.get? name = none := by
          simpa [Bindings.contains] using missing
        obtain ⟨distance, outerBound, rfl⟩ :
            ∃ less, Scopes.distance? outer name = some less ∧
            less + 1 = distance := by simpa using bound
        rcases outerLookup outerBound with ⟨target, cell, outward, inFrame, inView, full⟩
        refine ⟨target, cell, ⟨_, enclosed, outward⟩, inFrame, ?_, fun notFalse =>
          full ?_⟩
        · rw [View.cell?_inside, elsewhere name undeclared, inView]
        · simpa [Scopes.state?, undeclared] using notFalse

theorem World.Holds.frameAt {machine : LoxLang.Machine} {machine' : Machine}
    (holds : world.Holds frame machine machine') {steps : Nat} {target : FrameId}
    (outward : world.Outward steps frame target) :
    Action.frameAt steps machine = .ok target machine := by
  simp only [Action.frameAt, holds.current, holds.ancestor? outward]

theorem follows_valueIn {target : FrameId} {cell : Cell}
    (inFrame : world.cellOf target name = some cell) (full : world.Full cell) :
    (comparison frame own).Follows world (Action.valueIn target name) (valueIn cell name)
      fun grown value value' => grown.Values value value' ∧
        (name = "super" → ∃ description, value = .classValue description) := by
  intro machine machine' holds
  have some := World.Holds.full holds full
  unfold Action.valueIn valueIn
  rcases rel_cases (World.Holds.cells holds inFrame) with
      ⟨left, right⟩ | ⟨value, value', left, right, values⟩
  · simp [right] at some
  · rw [left, right]
    refine .ok (.refl _) holds ⟨values, ?_⟩
    rintro rfl
    refine World.Holds.supers holds ?_ left
    rintro rfl
    rw [world.globals] at inFrame
    cases inFrame

theorem follows_localValue (own : Option FrameId)
    (aligned : Aligned world scopes frame view) {distance : Nat}
    (bound : scopes.distance? name = some distance)
    (complete : scopes.state? name ≠ some false) :
    ∃ cell, view.cell? name = some cell ∧
      (comparison frame own).Follows world (Action.localValue distance name)
        (valueIn cell name)
        fun grown value value' => grown.Values value value' ∧
          (name = "super" → ∃ description, value = .classValue description) := by
  rcases aligned.lookup bound with ⟨target, cell, outward, inFrame, inView, full⟩
  refine ⟨cell, inView, ?_⟩
  refine (follows_valueIn inFrame (full complete)).congr fun machine machine' holds =>
    ⟨?_, rfl⟩
  simp only [Action.localValue, Bind.bind, EStateM.bind,
    World.Holds.frameAt holds outward]

theorem follows_distanceOf {reference : Occurrence} {α α' : Type}
    {post : World → α → α' → Prop} {next : Option Nat → LoxLang.Action α}
    {right : Action α'}
    (follows : (comparison frame own).Follows world
      (next (world.settlement.distances.get? reference.place)) right post) :
    (comparison frame own).Follows world (Action.distanceOf reference >>= next) right
      post := by
  refine follows.congr fun machine machine' holds => ⟨?_, rfl⟩
  simp only [Action.distanceOf, Bind.bind, EStateM.bind, World.Holds.distances holds]

theorem follows_read {reference : Occurrence} (aligned : Aligned world scopes frame view)
    (reads : scopes.Reads world.settlement reference) :
    (comparison frame own).Follows world (Action.read reference) (read view reference)
      World.Values := by
  apply follows_distanceOf
  rw [reads.binds.2]
  cases bound : scopes.distance? reference.lexeme with
  | none =>
      rw [read, aligned.cell?_of_global bound]
      exact follows_globalValue
  | some distance =>
      rcases follows_localValue own aligned bound reads.complete with
          ⟨cell, inView, follows⟩
      rw [read, inView]
      exact follows.weaken fun _ _ _ _ both => both.1

theorem follows_assign {reference : Occurrence} {value : Value} {value' : Value View}
    (aligned : Aligned world scopes frame view)
    (binds : world.settlement.Binds scopes reference)
    (unreserved : reference.lexeme ∉ reservedNames) (values : world.Values value value') :
    (comparison frame own).Follows world (Action.assign reference value)
      (assign view reference value') fun _ _ _ => True := by
  apply follows_distanceOf
  rw [binds.2]
  cases bound : scopes.distance? reference.lexeme with
  | none =>
      rw [assign, aligned.cell?_of_global bound]
      exact follows_assignGlobal values
  | some distance =>
      rcases aligned.lookup bound with ⟨target, cell, outward, inFrame, inView, -⟩
      rw [assign, inView]
      have isClass : reference.lexeme = "super" →
          ∃ description, value = .classValue description :=
        fun reserved => absurd (by simp [reserved, reservedNames]) unreserved
      have grows : world.Grows none (world.fill cell) := World.grows_fill cell
      refine ((follows_define inFrame isClass (values.mono grows)).weaken
        fun _ _ _ _ _ => trivial).congr fun machine machine' holds => ⟨?_, rfl⟩
      simp only [Bind.bind, EStateM.bind, World.Holds.frameAt holds outward]

end Locals

/-! ## Objects, output and clock -/

section Objects

variable {world : World} {frame : FrameId} {own : Option FrameId}

theorem follows_newIdentity :
    (comparison frame own).Follows world Action.newIdentity newIdentity
      fun grown identity identity' => grown = world ∧ identity = identity' :=
  fun _ _ holds => .ok (.refl _)
    { holds with identities := by rw [World.Holds.identities holds] }
    ⟨rfl, World.Holds.identities holds⟩

theorem follows_newObject {description : Class} {description' : Class View}
    (classes : world.Classes description description') :
    (comparison frame own).Follows world (Action.newObject description)
      (newObject description') World.Values := by
  intro machine machine' holds
  have count := World.Holds.objectCount holds
  refine .ok (.refl _) { holds with objects := ?_, objectCount := by simp [count] } ?_
  · intro object
    simp only [Array.getElem?_push, count]
    split
    · exact .some .empty
    · exact World.Holds.objects holds object
  · rw [count]
    exact .object classes

theorem follows_field? {object : Nat} {name : String} :
    (comparison frame own).Follows world (Action.field? object name) (field? object name)
      fun grown => Option.Rel grown.Values := by
  intro machine machine' holds
  refine .ok (.refl _) holds ?_
  rcases rel_cases (World.Holds.objects holds object) with
      ⟨left, right⟩ | ⟨_, _, left, right, fields⟩ <;>
    rw [left, right]
  · exact .none
  · exact fields.get? name

theorem follows_setField {object : Nat} {name : String} {value : Value}
    {value' : Value View} (values : world.Values value value') :
    (comparison frame own).Follows world (Action.setField object name value)
      (setField object name value') fun grown _ _ => grown = world := by
  intro machine machine' holds
  refine .ok (.refl _) { holds with objects := ?_, objectCount := ?_ } rfl
  · intro other
    simp only [Array.getElem?_modify]
    split
    · rcases rel_cases (World.Holds.objects holds other) with
          ⟨left, right⟩ | ⟨_, _, left, right, fields⟩ <;> rw [left, right]
      · exact .none
      · exact .some (fields.bind name values)
    · exact World.Holds.objects holds other
  · simp [World.Holds.objectCount holds]

theorem follows_print (text : String) :
    (comparison frame own).Follows world (Action.print text) (print text)
      fun grown _ _ => grown = world :=
  fun _ _ holds => .ok (.refl _) { holds with
    printed := by rw [World.Holds.printed holds] } rfl

theorem follows_readClock :
    (comparison frame own).Follows world Action.readClock readClock
      fun _ seconds seconds' => seconds = seconds' :=
  fun _ _ holds => .ok (.refl _) { holds with clock := by rw [World.Holds.clock holds] }
    (by rw [World.Holds.clock holds])

end Objects

end LoxLang.Lexical
