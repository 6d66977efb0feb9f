import LoxLang.Machine.Basic
import LoxLang.Value.Text

/-! # Storage cells

The machine that the rules of lexical scope describe. Every declaration of a local name
takes a cell of its own, and what can be seen from a place is an immutable map from names
to cells. A name that is not in the map is a global name.
-/

namespace LoxLang.Lexical

/-- The number of a cell among all cells that were ever taken. -/
abbrev Cell := Nat

/-- What can be seen from a place. At the top level declarations are global, so nothing
local can be seen from there. -/
inductive View where
  | topLevel
  | inside (cells : Bindings Cell)

namespace View

def cell? : View → String → Option Cell
  | topLevel, _ => none
  | inside cells, name => cells.get? name

def cells : View → Bindings Cell
  | topLevel => Bindings.empty
  | inside cells => cells

def extend (view : View) (name : String) (cell : Cell) : View :=
  inside (view.cells.bind name cell)

@[simp] theorem get?_cells (view : View) (name : String) :
    view.cells.get? name = view.cell? name := by
  cases view <;> rfl

@[simp] theorem cell?_inside (cells : Bindings Cell) (name : String) :
    (inside cells).cell? name = cells.get? name := rfl

@[simp] theorem cell?_extend (view : View) (name other : String) (cell : Cell) :
    (view.extend name cell).cell? other = if name = other then some cell
      else view.cell? other := by
  simp [extend]

end View

structure Machine where
  /-- A cell is without a value while the name that took it is being initialized. -/
  cells : Array (Option (Value View))
  globals : Bindings (Value View)
  objects : Array (Bindings (Value View))
  printed : Array String
  identities : Nat
  clock : Clock

abbrev Action := Activity Machine

namespace Machine

def bare (clock : Clock) : Machine := ⟨#[], Bindings.empty, #[], #[], 0, clock⟩

def takePrinted (machine : Machine) : List String × Machine :=
  (machine.printed.toList, { machine with printed := #[] })

def globalTexts (machine : Machine) : List (String × String) :=
  machine.globals.sorted.map fun (name, value) => (name, value.text)

end Machine

/-! ## Cells and global names -/

def newCell : Action Cell := fun machine =>
  .ok machine.cells.size { machine with cells := machine.cells.push none }

/-- The value in a cell, which should have one. The name is only mentioned in the
defect. -/
def valueIn (cell : Cell) (name : String) : Action (Value View) := fun machine =>
  match machine.cells[cell]?.join with
  | some value => .ok value machine
  | none => .error (.defect (.nameMissing name)) machine

def write (cell : Cell) (value : Value View) : Action Unit := fun machine =>
  .ok () { machine with cells := machine.cells.setIfInBounds cell (some value) }

def newCellWith (value : Value View) : Action Cell := do
  let cell ← newCell
  write cell value
  pure cell

def defineGlobal (name : String) (value : Value View) : Action Unit := fun machine =>
  .ok () { machine with globals := machine.globals.bind name value }

def globalValue (name : Occurrence) : Action (Value View) := fun machine =>
  match machine.globals.get? name.lexeme with
  | some value => .ok value machine
  | none => .error (.error ⟨name, .undefinedVariable name.lexeme⟩) machine

def assignGlobal (name : Occurrence) (value : Value View) : Action Unit := fun machine =>
  if machine.globals.contains name.lexeme then
    .ok () { machine with globals := machine.globals.bind name.lexeme value }
  else .error (.error ⟨name, .undefinedVariable name.lexeme⟩) machine

def read (view : View) (name : Occurrence) : Action (Value View) :=
  match view.cell? name.lexeme with
  | some cell => valueIn cell name.lexeme
  | none => globalValue name

def assign (view : View) (name : Occurrence) (value : Value View) : Action Unit :=
  match view.cell? name.lexeme with
  | some cell => write cell value
  | none => assignGlobal name value

/-- What can be seen once a declaration has begun: a local name gets a cell. -/
def declare (name : String) : View → Action View
  | .topLevel => pure .topLevel
  | .inside cells => do
    let cell ← newCell
    pure (.inside (cells.bind name cell))

def define (view : View) (name : String) (value : Value View) : Action Unit :=
  match view.cell? name with
  | some cell => write cell value
  | none => defineGlobal name value

/-! ## Objects, output and clock -/

def newIdentity : Action Nat := fun machine =>
  .ok machine.identities { machine with identities := machine.identities + 1 }

def newObject (description : Class View) : Action (Value View) := fun machine =>
  .ok (.object machine.objects.size description)
    { machine with objects := machine.objects.push Bindings.empty }

def field? (object : Nat) (name : String) : Action (Option (Value View)) := fun machine =>
  .ok (machine.objects[object]?.bind (·.get? name)) machine

def setField (object : Nat) (name : String) (value : Value View) : Action Unit :=
  fun machine =>
    .ok () { machine with objects := machine.objects.modify object (·.bind name value) }

def print (text : String) : Action Unit := fun machine =>
  .ok () { machine with printed := machine.printed.push text }

def readClock : Action Float := fun machine =>
  .ok machine.clock.seconds { machine with clock := machine.clock.tick }

end LoxLang.Lexical
