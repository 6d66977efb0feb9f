import LoxLang.Proofs.Comparison.Shadows
import LoxLang.Proofs.Lexical.Evaluation
import LoxLang.Proofs.Renaming.Sight

/-! # Cells under other names

Two machines with the same cells, of which one sees some of them under another name. Views
correspond if a name and its new spelling stand for the same cell. So reading, writing and
declaring a name is the same on both machines, as long as it is spelled accordingly.
-/

namespace LoxLang.Lexical.Respelled

open Comparison

variable (respelling : Respelling)

/-! ## What corresponds -/

structure Views (sight : Sight) (view view' : View) : Prop where
  topLevel : view' = .topLevel ↔ view = .topLevel
  outside : sight = .outside → view = .topLevel
  inside : sight = .plain ∨ sight = .renamed → view ≠ .topLevel
  cell? : ∀ name, sight.Allows respelling name →
    view'.cell? (sight.spell respelling name) = view.cell? name
  bound : sight = .renamed → (view.cell? respelling.old).isSome = true

structure Closures (closure closure' : Closure View) : Prop where
  isInitializer : closure'.isInitializer = closure.isInitializer
  home : ∃ (move : Occurrence → Occurrence) (sight : Sight),
    (∀ word, (move word).line = word.line) ∧
      closure'.routine = closure.routine.map move ∧
      closure.routine.Fits respelling move sight ∧
      Views respelling sight closure.frame closure'.frame

abbrev Values : Value View → Value View → Prop :=
  Value.Related (Closures respelling) (Closures respelling)

abbrev Classes : Class View → Class View → Prop := Class.Related (Closures respelling)

structure Holds (machine machine' : Machine) : Prop where
  cells : ∀ cell : Nat, Option.Rel (Option.Rel (Values respelling))
    machine.cells[cell]? machine'.cells[cell]?
  cellCount : machine'.cells.size = machine.cells.size
  globals : Bindings.Related (Values respelling) machine.globals machine'.globals
  objects : ∀ object : Nat, Option.Rel (Bindings.Related (Values respelling))
    machine.objects[object]? machine'.objects[object]?
  objectCount : machine'.objects.size = machine.objects.size
  printed : machine'.printed = machine.printed
  identities : machine'.identities = machine.identities
  clock : machine'.clock = machine.clock

def comparison : Comparison Machine Machine Unit where
  Grows _ _ := True
  Holds _ := Holds respelling
  Words word word' := word'.line = word.line
  defects := True
  refl _ := trivial
  trans _ _ := trivial

abbrev Shadows {α α' : Type} (left : Action α) (right : Action α')
    (post : α → α' → Prop) : Prop :=
  (comparison respelling).Shadows () left right fun _ => post

variable {respelling}

theorem Closures.lexeme {closure closure' : Closure View}
    (same : Closures respelling closure closure') :
    closure'.routine.name.lexeme = closure.routine.name.lexeme := by
  obtain ⟨move, sight, -, routine, fits, -⟩ := same.home
  rw [routine, Routine.name_map]
  rcases closure with ⟨⟨_, _, _⟩, _, _⟩
  exact fits.1

theorem Closures.arity {closure closure' : Closure View}
    (same : Closures respelling closure closure') : closure.arity = closure'.arity := by
  obtain ⟨move, -, -, routine, -⟩ := same.home
  rw [Closure.arity, Closure.arity, routine, Routine.parameters_map, List.length_map]

theorem Values.text {value value' : Value View} (same : Values respelling value value') :
    value.text = value'.text :=
  Value.Related.text same fun _ _ closures => closures.lexeme.symm

theorem Values.arity? {value value' : Value View}
    (same : Values respelling value value') : value.arity? = value'.arity? :=
  Value.Related.arity? same (fun _ _ closures => closures.arity) fun _ _ closures =>
    closures.arity

/-! ## Views -/

namespace Views

variable {sight : Sight} {view view' : View} {name spelling : String} {cell : Cell}

theorem apart (view : View) : Views respelling .apart view view where
  topLevel := Iff.rfl
  outside := nofun
  inside := nofun
  cell? _ _ := rfl
  bound := nofun

theorem topLevel_outside : Views respelling .outside .topLevel .topLevel where
  topLevel := Iff.rfl
  outside _ := rfl
  inside := nofun
  cell? _ _ := rfl
  bound := nofun

theorem lookup (views : Views respelling sight view view') {move : Occurrence → Occurrence}
    {name : Occurrence} (refers : sight.Refers respelling move name) :
    view'.cell? (move name).lexeme = view.cell? name.lexeme ∧
      (view.cell? name.lexeme = none → (move name).lexeme = name.lexeme) := by
  rw [refers.spelling]
  refine ⟨views.cell? _ refers.allowed, fun global => ?_⟩
  cases sight with
  | apart | outside | plain => rfl
  | renamed =>
      apply if_neg
      intro isOld
      have bound := views.bound rfl
      rw [← isOld, global] at bound
      cases bound

theorem enter (views : Views respelling sight view view') :
    Views respelling sight.enter (.inside view.cells) (.inside view'.cells) := by
  have cells : ∀ name, sight.Allows respelling name →
      (View.inside view'.cells).cell? (sight.spell respelling name) =
        (View.inside view.cells).cell? name := by
    intro name allowed
    rw [View.cell?_inside, View.cell?_inside, View.get?_cells, View.get?_cells]
    exact views.cell? name allowed
  cases sight with
  | apart => exact ⟨⟨nofun, nofun⟩, nofun, nofun, cells, nofun⟩
  | outside =>
    exact ⟨⟨nofun, nofun⟩, nofun, nofun, fun name _ => cells name trivial, nofun⟩
  | plain => exact ⟨⟨nofun, nofun⟩, nofun, nofun, cells, nofun⟩
  | renamed =>
      refine ⟨⟨nofun, nofun⟩, nofun, nofun, cells, fun _ => ?_⟩
      rw [View.cell?_inside, View.get?_cells]
      exact views.bound rfl

theorem extend (views : Views respelling sight view view') (inside : sight ≠ .outside)
    (allowed : sight.Allows respelling name)
    (spelled : spelling =
      (sight.declare respelling name spelling).spell respelling name) (cell : Cell) :
    Views respelling (sight.declare respelling name spelling) (view.extend name cell)
      (view'.extend spelling cell) where
  topLevel := ⟨nofun, nofun⟩
  outside outside := absurd outside (Sight.declare_ne_outside inside)
  inside _ := nofun
  cell? other allowedOther := by
    have allowed' : (sight.declare respelling name spelling).Allows respelling name :=
      Sight.allows_declare.mpr allowed
    rw [View.cell?_extend, View.cell?_extend]
    simp only [Sight.spelling_eq_iff allowed' spelled allowedOther]
    split
    case isTrue => rfl
    case isFalse different =>
        rw [Sight.spell_declare_of_ne different]
        exact views.cell? other (Sight.allows_declare.mp allowedOther)
  bound renamed := by
    rw [View.cell?_extend]
    split
    case isTrue => rfl
    case isFalse different =>
        rw [Sight.declare_of_ne different] at renamed
        exact views.bound renamed

theorem extendReserved (views : Views respelling sight view view')
    (inside : sight ≠ .outside) (reserved : name ∈ reservedNames) (cell : Cell) :
    Views respelling sight (view.extend name cell) (view'.extend name cell) := by
  have extended : Views respelling (sight.declare respelling name name)
      (view.extend name cell) (view'.extend name cell) :=
    views.extend inside (Sight.allows_reserved reserved)
      (Sight.spell_reserved reserved).symm cell
  rwa [Sight.declare_of_ne (respelling.ne_old reserved)] at extended

theorem cell?_reserved (views : Views respelling sight view view')
    (reserved : name ∈ reservedNames) : view'.cell? name = view.cell? name := by
  have found := views.cell? name (Sight.allows_reserved reserved)
  rwa [Sight.spell_reserved reserved] at found

end Views

/-! ## Ends -/

section Ends

variable {machine machine' : Machine} {α α' : Type} {post : α → α' → Prop}
  (holds : Holds respelling machine machine')

include holds

theorem shadows_ok {result : α} {result' : α'} (results : post result result') :
    IsDefective (.ok result machine : EStateM.Result Stop Machine α) ∨
      (comparison respelling).Ends () (fun _ => post) (.ok result machine)
        (.ok result' machine') :=
  .inr (.ok (show (comparison respelling).Grows () () from trivial) holds results)

theorem shadows_error {word word' : Occurrence} (line : word'.line = word.line)
    (cause : RuntimeCause) :
    IsDefective (.error (.error ⟨word, cause⟩) machine : EStateM.Result Stop Machine α) ∨
      (comparison respelling).Ends () (fun _ => post) (.error (.error ⟨word, cause⟩) machine)
        (.error (.error ⟨word', cause⟩) machine') :=
  .inr (.error (show (comparison respelling).Grows () () from trivial) holds
    (.error (show (comparison respelling).Words word word' from line) cause))

end Ends

/-! ## Cells and global names -/

section Cells

variable {value value' : Value View}

theorem shadows_newCell :
    Shadows respelling newCell newCell fun cell cell' => cell' = cell := by
  intro machine machine' holds
  have count : machine'.cells.size = machine.cells.size := Holds.cellCount holds
  have holds' : Holds respelling { machine with cells := machine.cells.push none }
      { machine' with cells := machine'.cells.push none } :=
    { holds with
      cells := by
        intro cell
        simp only [Array.getElem?_push, count]
        split
        · exact .some .none
        · exact Holds.cells holds cell
      cellCount := by simp [count] }
  exact shadows_ok holds' count

theorem shadows_valueIn (cell : Cell) (name name' : String) :
    Shadows respelling (valueIn cell name) (valueIn cell name') (Values respelling) := by
  intro machine machine' holds
  unfold valueIn
  obtain ⟨left, right⟩ | ⟨_, _, left, right, content⟩ :=
    rel_cases (Holds.cells holds cell)
  · rw [left]
    exact .inl (.defect _ _)
  · rw [left, right, Option.join_some, Option.join_some]
    cases content with
    | none => exact .inl (.defect _ _)
    | some values => exact shadows_ok holds values

theorem shadows_write (cell : Cell) (values : Values respelling value value') :
    Shadows respelling (write cell value) (write cell value') fun _ _ => True := by
  intro machine machine' holds
  have count : machine'.cells.size = machine.cells.size := Holds.cellCount holds
  have holds' : Holds respelling
      { machine with cells := machine.cells.setIfInBounds cell (some value) }
      { machine' with cells := machine'.cells.setIfInBounds cell (some value') } :=
    { holds with
      cells := by
        intro other
        simp only [Array.getElem?_setIfInBounds, count]
        split
        · split
          · exact .some (.some values)
          · exact .none
        · exact Holds.cells holds other
      cellCount := by simp [count] }
  exact shadows_ok holds' trivial

theorem shadows_newCellWith (values : Values respelling value value') :
    Shadows respelling (newCellWith value) (newCellWith value') fun cell cell' =>
      cell' = cell := by
  unfold newCellWith
  apply shadows_newCell.bind
  intro _ _ cell _ same
  subst same
  apply (shadows_write cell values).bind
  exact fun _ _ _ _ _ => .pure rfl

theorem shadows_defineGlobal (name : String) (values : Values respelling value value') :
    Shadows respelling (defineGlobal name value) (defineGlobal name value') fun _ _ =>
      True := by
  intro machine machine' holds
  have holds' : Holds respelling
      { machine with globals := machine.globals.bind name value }
      { machine' with globals := machine'.globals.bind name value' } :=
    { holds with globals := Bindings.Related.bind (Holds.globals holds) name values }
  exact shadows_ok holds' trivial

theorem shadows_globalValue {name name' : Occurrence} (line : name'.line = name.line)
    (lexeme : name'.lexeme = name.lexeme) :
    Shadows respelling (globalValue name) (globalValue name') (Values respelling) := by
  intro machine machine' holds
  unfold globalValue
  rw [lexeme]
  obtain ⟨left, right⟩ | ⟨_, _, left, right, values⟩ :=
    rel_cases (Bindings.Related.get? (Holds.globals holds) name.lexeme)
  · rw [left, right]
    exact shadows_error holds line _
  · rw [left, right]
    exact shadows_ok holds values

theorem shadows_assignGlobal {name name' : Occurrence} (line : name'.line = name.line)
    (lexeme : name'.lexeme = name.lexeme) (values : Values respelling value value') :
    Shadows respelling (assignGlobal name value) (assignGlobal name' value') fun _ _ =>
      True := by
  intro machine machine' holds
  unfold assignGlobal
  rw [lexeme, ← Bindings.Related.contains (Holds.globals holds) name.lexeme]
  split
  · exact shadows_defineGlobal name.lexeme values machine machine' holds
  · exact shadows_error holds line _

end Cells

/-! ## Names -/

section Names

variable {sight : Sight} {view view' : View} {value value' : Value View}
  {move : Occurrence → Occurrence}

theorem shadows_read (lines : ∀ word, (move word).line = word.line)
    (views : Views respelling sight view view') {name : Occurrence}
    (refers : sight.Refers respelling move name) :
    Shadows respelling (read view name) (read view' (move name)) (Values respelling) := by
  unfold read
  obtain ⟨cells, isGlobal⟩ := views.lookup refers
  rw [cells]
  cases found : view.cell? name.lexeme with
  | none => exact shadows_globalValue (lines name) (isGlobal found)
  | some cell => exact shadows_valueIn cell _ _

theorem shadows_assign (lines : ∀ word, (move word).line = word.line)
    (views : Views respelling sight view view') {name : Occurrence}
    (refers : sight.Refers respelling move name)
    (values : Values respelling value value') :
    Shadows respelling (assign view name value) (assign view' (move name) value')
      fun _ _ => True := by
  unfold assign
  obtain ⟨cells, isGlobal⟩ := views.lookup refers
  rw [cells]
  cases found : view.cell? name.lexeme with
  | none => exact shadows_assignGlobal (lines name) (isGlobal found) values
  | some cell => exact shadows_write cell values

theorem shadows_declare (views : Views respelling sight view view') {name : Occurrence}
    (declares : sight.Declares respelling move name) :
    Shadows respelling (declare name.lexeme view) (declare (move name).lexeme view')
      (Views respelling (sight.after respelling move name)) := by
  cases view with
  | topLevel =>
      obtain rfl := views.topLevel.mpr rfl
      refine .pure ?_
      cases sight with
      | apart | outside => exact views
      | plain => exact absurd rfl (views.inside (.inl rfl))
      | renamed => exact absurd rfl (views.inside (.inr rfl))
  | inside cells =>
      cases view' with
      | topLevel => exact nomatch views.topLevel.mp rfl
      | inside cells' =>
          rw [declare, declare]
          apply shadows_newCell.bind
          intro _ _ cell _ same
          subst same
          have inside : sight ≠ .outside := fun outside => nomatch views.outside outside
          exact .pure (views.extend inside (Sight.allows_declare.mp declares.allowed)
            declares.spelling cell)

theorem shadows_define (views : Views respelling sight view view') {name : Occurrence}
    (refers : sight.Refers respelling move name)
    (values : Values respelling value value') :
    Shadows respelling (define view name.lexeme value)
      (define view' (move name).lexeme value') fun _ _ => True := by
  unfold define
  obtain ⟨cells, isGlobal⟩ := views.lookup refers
  rw [cells]
  cases found : view.cell? name.lexeme with
  | none =>
      rw [isGlobal found]
      exact shadows_defineGlobal name.lexeme values
  | some cell => exact shadows_write cell values

end Names

/-! ## Objects, output and clock -/

section Objects

theorem shadows_newIdentity :
    Shadows respelling newIdentity newIdentity fun identity identity' =>
      identity' = identity := by
  intro machine machine' holds
  have identities : machine'.identities = machine.identities := Holds.identities holds
  have holds' : Holds respelling
      { machine with identities := machine.identities + 1 }
      { machine' with identities := machine'.identities + 1 } :=
    { holds with identities := by rw [identities] }
  exact shadows_ok holds' identities

theorem shadows_newObject {description description' : Class View}
    (classes : Classes respelling description description') :
    Shadows respelling (newObject description) (newObject description')
      (Values respelling) := by
  intro machine machine' holds
  have count : machine'.objects.size = machine.objects.size := Holds.objectCount holds
  have holds' : Holds respelling
      { machine with objects := machine.objects.push Bindings.empty }
      { machine' with objects := machine'.objects.push Bindings.empty } :=
    { holds with
      objects := by
        intro object
        simp only [Array.getElem?_push, count]
        split
        · exact .some .empty
        · exact Holds.objects holds object
      objectCount := by simp [count] }
  have values : Values respelling (.object machine.objects.size description)
      (.object machine'.objects.size description') := by
    rw [count]
    exact .object classes
  exact shadows_ok holds' values

theorem shadows_field? (object : Nat) (name : String) :
    Shadows respelling (field? object name) (field? object name)
      (Option.Rel (Values respelling)) := by
  intro machine machine' holds
  apply shadows_ok holds
  obtain ⟨left, right⟩ | ⟨_, _, left, right, fields⟩ :=
    rel_cases (Holds.objects holds object)
  · rw [left, right]
    exact .none
  · rw [left, right]
    exact fields.get? name

theorem shadows_setField (object : Nat) (name : String) {value value' : Value View}
    (values : Values respelling value value') :
    Shadows respelling (setField object name value) (setField object name value')
      fun _ _ => True := by
  intro machine machine' holds
  have holds' : Holds respelling
      { machine with objects := machine.objects.modify object (·.bind name value) }
      { machine' with objects := machine'.objects.modify object (·.bind name value') } :=
    { holds with
      objects := by
        intro other
        simp only [Array.getElem?_modify]
        split
        · obtain ⟨left, right⟩ | ⟨_, _, left, right, fields⟩ :=
            rel_cases (Holds.objects holds other)
          · rw [left, right]
            exact .none
          · rw [left, right]
            exact .some (fields.bind name values)
        · exact Holds.objects holds other
      objectCount := by simp [Holds.objectCount holds] }
  exact shadows_ok holds' trivial

theorem shadows_print (text : String) :
    Shadows respelling (print text) (print text) fun _ _ => True := by
  intro machine machine' holds
  have holds' : Holds respelling { machine with printed := machine.printed.push text }
      { machine' with printed := machine'.printed.push text } :=
    { holds with printed := by simp [Holds.printed holds] }
  exact shadows_ok holds' trivial

theorem shadows_readClock :
    Shadows respelling readClock readClock fun seconds seconds' => seconds' = seconds := by
  intro machine machine' holds
  have clock : machine'.clock = machine.clock := Holds.clock holds
  have holds' : Holds respelling { machine with clock := machine.clock.tick }
      { machine' with clock := machine'.clock.tick } :=
    { holds with clock := by rw [clock] }
  exact shadows_ok holds' (by rw [clock])

end Objects

end LoxLang.Lexical.Respelled
