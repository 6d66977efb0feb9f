import LoxLang.Proofs.Construction.Values
import LoxLang.Proofs.Methods.Objects
import LoxLang.Proofs.Objects.Classes

/-! # Properties of objects by their history

Classes are declared, objects are created and fields are set, in any order and with anything
else in between that leaves the fields of objects alone. A property of an object is then
the value that was last set on this object, or else the method of its class, however many
other objects have fields of this name and whatever classes come later.
-/

namespace LoxLang

namespace Objects

/-! ## Events -/

/-- What happens to classes and objects, which are known by their numbers in order of
creation, and what else happens. -/
inductive Event where
  | declare (declaration : Declaration)
  | create (number : Nat)
  | set (object : Nat) (name : String) (value : Value)
  | elsewhere (action : Action Unit)

namespace Event

def declaration? : Event → Option Declaration
  | declare declaration => some declaration
  | _ => none

def creation? : Event → Option Nat
  | create number => some number
  | _ => none

def valueSet? (object : Nat) (name : String) : Event → Option Value
  | set other asked value => if other = object ∧ asked = name then some value else none
  | _ => none

end Event

def declarations (events : List Event) : List Declaration :=
  events.filterMap Event.declaration?

def creations (events : List Event) : List Nat := events.filterMap Event.creation?

def lastSet? (events : List Event) (object : Nat) (name : String) : Option Value :=
  (events.filterMap (Event.valueSet? object name)).getLast?

/-- Classes are made and used after what they need, and so are objects. What else happens
leaves the fields of objects alone. -/
def Event.Possible (before : List Event) : Event → Prop
  | declare declaration =>
    ∀ parent ∈ declaration.superclass, parent < (declarations before).length
  | create number => number < (declarations before).length
  | set object _ _ => object < (creations before).length
  | elsewhere action => ∀ machine, (action.leaves machine).objects = machine.objects

inductive Possible : List Event → Prop
  | nil : Possible []
  | concat {before : List Event} {event : Event} (possible : Possible before)
      (next : event.Possible before) : Possible (before ++ [event])

/-! ## What events make -/

structure Made where
  machine : Machine
  classes : List Class
  objects : List Value

def Made.perform (made : Made) : Event → Made
  | .declare declaration =>
    match Action.makeClass declaration.name (declaration.superclass.bind (made.classes[·]?))
      declaration.frame declaration.methods made.machine with
    | .ok description machine =>
      { made with machine, classes := made.classes ++ [description] }
    | .error _ machine => { made with machine }
  | .create number =>
    match made.classes[number]? with
    | some description =>
      match Action.newObject description made.machine with
      | .ok object machine => { made with machine, objects := made.objects ++ [object] }
      | .error _ machine => { made with machine }
    | none => made
  | .set object name value =>
    match made.objects[object]? with
    | some (.object identity _) =>
      { made with machine := (Action.setField identity name value).leaves made.machine }
    | _ => made
  | .elsewhere action => { made with machine := action.leaves made.machine }

def after (machine : Machine) (events : List Event) : Made :=
  events.foldl Made.perform ⟨machine, [], []⟩

/-- What has been made is what the events say. The first object has the number `first` on
the machine. -/
structure Reflects (first : Nat) (events : List Event) (made : Made) : Prop where
  declared : Declared (declarations events) made.classes
  created : ∀ object number, (creations events)[object]? = some number →
    ∃ description, made.classes[number]? = some description ∧
      made.objects[object]? = some (Value.object (first + object) description)
  count : made.objects.length = (creations events).length
  size : made.machine.objects.size = first + (creations events).length
  fields : ∀ object name,
    made.machine.objects[first + object]?.bind (·.get? name) = lastSet? events object name

section Steps

variable {first : Nat} {events : List Event} {made : Made}

theorem reflects_nil (machine : Machine) :
    Reflects machine.objects.size [] ⟨machine, [], []⟩ where
  declared := ⟨rfl, nofun, nofun⟩
  created := nofun
  count := rfl
  size := rfl
  fields object name := by
    rw [Array.getElem?_eq_none (Nat.le_add_right _ object)]
    rfl

theorem declarations_concat (events : List Event) (event : Event) :
    declarations (events ++ [event]) = declarations events ++ event.declaration?.toList := by
  rw [declarations, List.filterMap_append]
  cases event <;> rfl

theorem creations_concat (events : List Event) (event : Event) :
    creations (events ++ [event]) = creations events ++ event.creation?.toList := by
  rw [creations, List.filterMap_append]
  cases event <;> rfl

theorem lastSet?_concat (events : List Event) (event : Event) (object : Nat) (name : String) :
    lastSet? (events ++ [event]) object name =
      (event.valueSet? object name).or (lastSet? events object name) := by
  rw [lastSet?, List.filterMap_append, List.getLast?_append]
  cases set : event.valueSet? object name with
  | none => simp [set, lastSet?]
  | some value => simp [set]

theorem declarations_concat_of_none {event : Event} (none_ : event.declaration? = none) :
    declarations (events ++ [event]) = declarations events := by
  rw [declarations_concat, none_, Option.toList_none, List.append_nil]

theorem creations_concat_of_none {event : Event} (none_ : event.creation? = none) :
    creations (events ++ [event]) = creations events := by
  rw [creations_concat, none_, Option.toList_none, List.append_nil]

theorem lastSet?_concat_of_none {event : Event} {object : Nat} {name : String}
    (none_ : event.valueSet? object name = none) :
    lastSet? (events ++ [event]) object name = lastSet? events object name := by
  rw [lastSet?_concat, none_, Option.none_or]

namespace Reflects

variable (reflects : Reflects first events made)

include reflects

theorem declare {declaration : Declaration}
    (possible : (Event.declare declaration).Possible events) :
    Reflects first (events ++ [.declare declaration])
      (made.perform (.declare declaration)) where
  declared := by
    rw [declarations_concat]
    exact reflects.declared.concat possible ⟨rfl, rfl, rfl⟩
  created object number isCreated := by
    rw [creations_concat_of_none rfl] at isCreated
    rcases reflects.created object number isCreated with ⟨description, isClass, isObject⟩
    have before := (List.getElem?_eq_some_iff.mp isClass).1
    exact ⟨description, (List.getElem?_append_left before).trans isClass, isObject⟩
  count := by
    rw [creations_concat_of_none rfl]
    exact reflects.count
  size := by
    rw [creations_concat_of_none rfl]
    exact reflects.size
  fields object name := by
    rw [lastSet?_concat_of_none rfl]
    exact reflects.fields object name

theorem create {number : Nat} (possible : (Event.create number).Possible events) :
    Reflects first (events ++ [.create number]) (made.perform (.create number)) := by
  rcases reflects.declared.exists_class possible with ⟨description, isClass⟩
  have performed : made.perform (.create number) =
      { machine := { made.machine with
          objects := made.machine.objects.push Bindings.empty }
        classes := made.classes
        objects := made.objects ++ [.object made.machine.objects.size description] } := by
    rw [Made.perform, isClass]
    rfl
  have creations : creations (events ++ [.create number]) = creations events ++ [number] :=
    creations_concat _ _
  rw [performed]
  exact {
    declared := by
      rw [declarations_concat_of_none rfl]
      exact reflects.declared
    created := by
      intro object other isCreated
      rw [creations] at isCreated
      rcases getElem?_concat_cases isCreated with old | ⟨rfl, rfl⟩
      · have before := (List.getElem?_eq_some_iff.mp old).1
        rw [List.getElem?_append_left (reflects.count ▸ before)]
        exact reflects.created object other old
      · rw [← reflects.count, List.getElem?_concat_length, reflects.size, reflects.count]
        exact ⟨description, isClass, rfl⟩
    count := by
      rw [creations, List.length_append, List.length_append, reflects.count]
      rfl
    size := by
      rw [creations, List.length_append, Array.size_push, reflects.size]
      rfl
    fields := by
      intro object name
      rw [lastSet?_concat_of_none rfl, ← reflects.fields, Array.getElem?_push]
      split
      case isTrue new =>
          rw [new, Array.getElem?_eq_none (Nat.le_refl _)]
          rfl
      case isFalse => rfl }

theorem change {event : Event} {machine : Machine} (undeclared : event.declaration? = none)
    (uncreated : event.creation? = none)
    (size : machine.objects.size = made.machine.objects.size)
    (fields : ∀ object name, machine.objects[first + object]?.bind (·.get? name) =
      (event.valueSet? object name).or
        (made.machine.objects[first + object]?.bind (·.get? name))) :
    Reflects first (events ++ [event]) { made with machine } where
  declared := by
    rw [declarations_concat_of_none undeclared]
    exact reflects.declared
  created := by
    rw [creations_concat_of_none uncreated]
    exact reflects.created
  count := by
    rw [creations_concat_of_none uncreated]
    exact reflects.count
  size := by
    rw [creations_concat_of_none uncreated]
    exact size.trans reflects.size
  fields object name := by
    rw [lastSet?_concat, ← reflects.fields]
    exact fields object name

theorem set {object : Nat} {name : String} {value : Value}
    (possible : (Event.set object name value).Possible events) :
    Reflects first (events ++ [.set object name value])
      (made.perform (.set object name value)) := by
  rcases reflects.created object _ (List.getElem?_eq_getElem possible) with
    ⟨description, -, isObject⟩
  have performed : made.perform (.set object name value) =
      { made with machine := { made.machine with
        objects := made.machine.objects.modify (first + object) (·.bind name value) } } := by
    rw [Made.perform, isObject]
    rfl
  rw [performed]
  refine reflects.change rfl rfl Array.size_modify ?_
  intro other asked
  rw [Array.getElem?_modify, Event.valueSet?]
  by_cases same : object = other
  · subst same
    have exists_ : first + object < made.machine.objects.size := by
      rw [reflects.size]
      exact Nat.add_lt_add_left possible first
    rw [if_pos rfl, Array.getElem?_eq_getElem exists_]
    by_cases isName : name = asked <;> simp [isName]
  · rw [if_neg (by omega), if_neg (fun both => same both.1), Option.none_or]

theorem elsewhere {action : Action Unit}
    (possible : (Event.elsewhere action).Possible events) :
    Reflects first (events ++ [.elsewhere action]) (made.perform (.elsewhere action)) := by
  refine reflects.change rfl rfl ?_ ?_
  · rw [possible]
  · intro object name
    rw [possible]
    rfl

theorem perform {event : Event} (possible : event.Possible events) :
    Reflects first (events ++ [event]) (made.perform event) := by
  cases event with
  | declare => exact reflects.declare possible
  | create => exact reflects.create possible
  | set => exact reflects.set possible
  | elsewhere => exact reflects.elsewhere possible

end Reflects

/-- All events are reflected in what they make together. -/
theorem Possible.reflects (possible : Possible events) (machine : Machine) :
    Reflects machine.objects.size events (after machine events) := by
  induction possible with
  | nil => exact reflects_nil machine
  | concat _ next induction =>
      rw [after, List.foldl_append]
      exact induction.perform next

end Steps

/-! ## Properties -/

inductive Property where
  | field (value : Value)
  | method (method : Closure)
  | missing

/-- Events tell what is found as the property of an object: the value that was last set on
it or else the method of its class. -/
inductive Finds (events : List Event) (object : Nat) (name : String) : Property → Prop
  | field {value : Value} (last : lastSet? events object name = some value) :
      Finds events object name (.field value)
  | method {number : Nat} {method : Closure} (unset : lastSet? events object name = none)
      (created : (creations events)[object]? = some number)
      (has : HasMethod (declarations events) number name (some method)) :
      Finds events object name (.method method)
  | missing {number : Nat} (unset : lastSet? events object name = none)
      (created : (creations events)[object]? = some number)
      (hasNone : HasMethod (declarations events) number name none) :
      Finds events object name .missing

/-- The property of a value is read as what was found. A method is bound to the value, and
the error of a missing property is at its name. -/
def Property.IsRead (this : Value) (name : Occurrence) (machine : Machine) : Property → Prop
  | field value => Action.property this name machine = .ok value machine
  | method found => ∃ identity bound later,
      Action.property this name machine = .ok (.function identity bound) later ∧
        found.BoundAs later.frames bound ∧ bound.BoundTo later.frames this ∧
        later.objects = machine.objects
  | missing => ∃ error : RuntimeError,
      error.token = name ∧ error.message = s!"Undefined property '{name.lexeme}'." ∧
        Action.property this name machine = .error (.error error) machine

theorem exists_finds {events : List Event} {object : Nat}
    (exists_ : object < (creations events).length) (name : String) :
    ∃ found, Finds events object name found := by
  have created := List.getElem?_eq_getElem exists_
  cases last : lastSet? events object name with
  | some value => exact ⟨_, .field last⟩
  | none =>
      rcases exists_hasMethod (declarations events) (creations events)[object] name with
        ⟨method?, has⟩
      cases method? with
      | some method => exact ⟨_, .method last created has⟩
      | none => exact ⟨_, .missing last created has⟩

theorem lastSet?_append {events more : List Event} {object : Nat} {name : String}
    (unset : ∀ value, .set object name value ∉ more) :
    lastSet? (events ++ more) object name = lastSet? events object name := by
  have nothing : more.filterMap (Event.valueSet? object name) = [] := by
    rw [List.filterMap_eq_nil_iff]
    intro event member
    cases event with
    | declare | create | elsewhere => rfl
    | set other asked value =>
        rw [Event.valueSet?, if_neg]
        intro same
        rcases same with ⟨rfl, rfl⟩
        exact unset value member
  rw [lastSet?, List.filterMap_append, nothing, List.append_nil, lastSet?]

/-! ## Reading properties -/

section Reading

variable {machine : Machine} {identity : Nat} {description : Class} {name : Occurrence}

theorem property_of_field {value : Value}
    (field : machine.objects[identity]?.bind (·.get? name.lexeme) = some value) :
    Action.property (.object identity description) name machine = .ok value machine := by
  simp only [Action.property, Action.field?, Bind.bind, EStateM.bind]
  rw [field]
  rfl

theorem property_of_no_field
    (noField : machine.objects[identity]?.bind (·.get? name.lexeme) = none) :
    Action.property (.object identity description) name machine =
      Action.method description name (.object identity description) machine := by
  simp only [Action.property, Action.field?, Bind.bind, EStateM.bind]
  rw [noField]

theorem method_of_found {found : Closure} (this : Value)
    (isFound : description.findMethod? name.lexeme = some found) :
    Action.method description name this machine =
      .ok (.function machine.identities { found with frame := machine.frames.size })
        { machine with
          frames := machine.frames.pushWith found.frame "this" this
          identities := machine.identities + 1 } := by
  rw [Action.method, isFound]
  exact Action.boundMethod_eq found this machine

theorem method_of_none (this : Value)
    (isNone : description.findMethod? name.lexeme = none) :
    Action.method description name this machine =
      .error (.error ⟨name, .undefinedProperty name.lexeme⟩) machine := by
  rw [Action.method, isNone]
  rfl

theorem Finds.isRead {events : List Event} {object number : Nat} {found : Property}
    (finds : Finds events object name.lexeme found)
    (created : (creations events)[object]? = some number)
    (methods : ∀ method?, HasMethod (declarations events) number name.lexeme method? →
      description.findMethod? name.lexeme = method?)
    (fields : machine.objects[identity]?.bind (·.get? name.lexeme) =
      lastSet? events object name.lexeme) :
    found.IsRead (.object identity description) name machine := by
  cases finds with
  | field last => exact property_of_field (fields.trans last)
  | method unset created' has =>
      rcases Option.some.inj (created.symm.trans created') with rfl
      have read := (property_of_no_field (fields.trans unset)).trans
        (method_of_found (.object identity description) (methods _ has))
      refine ⟨_, _, _, read, ⟨rfl, Frames.enclosing?_pushWith_size _ _ _⟩, ?_, rfl⟩
      rw [Closure.BoundTo, Frames.here?_pushWith, if_pos rfl, if_pos rfl]
  | missing unset created' hasNone =>
      rcases Option.some.inj (created.symm.trans created') with rfl
      exact ⟨_, rfl, rfl, (property_of_no_field (fields.trans unset)).trans
        (method_of_none _ (methods _ hasNone))⟩

end Reading

/-- A property of an object is the value that was last set on it, or else the method that
the nearest class defines, from the class of the object upward, bound to the object, and
otherwise missing. This stays so until the same field of the same object is set. And a
class takes as many arguments as the initializer that calls of it run. -/
theorem properties_follow_events (machine : Machine) {events : List Event}
    (possible : Possible events) :
    (∀ object < (creations events).length,
      ∃ this, (after machine events).objects[object]? = some this ∧
        ∀ name : Occurrence, (∃ found, Finds events object name.lexeme found) ∧
          ∀ found, Finds events object name.lexeme found →
          ∀ more, Possible (events ++ more) →
            (∀ value, .set object name.lexeme value ∉ more) →
            found.IsRead this name (after machine (events ++ more)).machine) ∧
    (∀ number < (declarations events).length,
      ∃ description, (after machine events).classes[number]? = some description ∧
        (∃ method?, HasMethod (declarations events) number "init" method?) ∧
        ∀ method?, HasMethod (declarations events) number "init" method? →
          (Value.classValue description).arity? = some (method?.elim 0 (·.arity)) ∧
          ∀ run arguments, Action.construct run description arguments = (do
            let object ← Action.newObject description
            match method? with
            | some method => do
              let initializer ← Action.bindThis method object
              let _ ← Action.callClosure run initializer arguments
              pure object
            | none => pure object)) := by
  have reflects := possible.reflects machine
  constructor
  · intro object exists_
    have created := List.getElem?_eq_getElem exists_
    rcases reflects.created object _ created with ⟨description, isClass, isObject⟩
    refine ⟨_, isObject, fun name => ⟨exists_finds exists_ name.lexeme, ?_⟩⟩
    intro found finds more possible' unset
    have fields := (possible'.reflects machine).fields object name.lexeme
    rw [lastSet?_append unset] at fields
    exact finds.isRead created (fun _ => reflects.declared.findMethod? isClass) fields
  · intro number exists_
    rcases reflects.declared.exists_class exists_ with ⟨description, isClass⟩
    refine ⟨description, isClass, exists_hasMethod _ number "init", ?_⟩
    intro method? has
    exact ⟨congrArg some (reflects.declared.arity isClass has),
      reflects.declared.construct isClass has⟩

def emptyMethod (name : String) (parameters : List Occurrence) : Routine :=
  .mk ⟨.identifier name 1, 0⟩ parameters []

def siblings : List Event :=
  [.declare ⟨"Base", none, 0, [emptyMethod "init" [⟨.identifier "a" 1, 1⟩],
      emptyMethod "greet" [], emptyMethod "greet" [⟨.identifier "b" 1, 2⟩]]⟩,
    .declare ⟨"Child", some 0, 0, []⟩, .create 1, .create 1, .set 0 "greet" .nil]

theorem properties_follow_events_siblings :
    Possible siblings ∧
      ∃ this description, (after (Machine.bare 0) siblings).objects[1]? = some this ∧
        Property.IsRead this ⟨.identifier "greet" 2, 3⟩
          (after (Machine.bare 0) siblings).machine
          (.method ⟨emptyMethod "greet" [⟨.identifier "b" 1, 2⟩], 0, false⟩) ∧
        (after (Machine.bare 0) siblings).classes[1]? = some description ∧
        (Value.classValue description).arity? = some 1 := by
  have possible : Possible siblings := by
    refine @Possible.concat [_, _, _, _] _ (@Possible.concat [_, _, _] _
      (@Possible.concat [_, _] _ (@Possible.concat [_] _
        (@Possible.concat [] _ .nil ?_) ?_) ?_) ?_) ?_
    all_goals
      simp [Event.Possible, declarations, creations, Event.declaration?, Event.creation?]
  have lacks (name : String) : ¬Defines (declarations siblings) name 1 := by
    intro defines
    rcases defines with ⟨declaration, ⟨⟩, routine, member, -⟩
    cases member
  have greets : HasMethod (declarations siblings) 1 "greet"
      (some ⟨emptyMethod "greet" [⟨.identifier "b" 1, 2⟩], 0, false⟩) :=
    .defined (.link (lacks _) rfl (.self ⟨_, rfl, _, .tail _ (.head _), rfl⟩)) rfl rfl
  have initializes : HasMethod (declarations siblings) 1 "init"
      (some ⟨emptyMethod "init" [⟨.identifier "a" 1, 1⟩], 0, true⟩) :=
    .defined (.link (lacks _) rfl (.self ⟨_, rfl, _, .head _, rfl⟩)) rfl rfl
  rcases properties_follow_events (Machine.bare 0) possible with ⟨objects, classes⟩
  rcases objects 1 (by decide) with ⟨this, isObject, properties⟩
  rcases classes 1 (by decide) with ⟨description, isClass, -, takes⟩
  have read := (properties ⟨.identifier "greet" 2, 3⟩).2 _ (.method rfl rfl greets) []
  rw [List.append_nil] at read
  exact ⟨possible, this, description, isObject, read possible (by simp), isClass,
    (takes _ initializes).1⟩

end Objects

end LoxLang
