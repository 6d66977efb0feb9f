import LoxLang.Proofs.Binding.Settled
import LoxLang.Proofs.Renaming.Roles
import LoxLang.Proofs.Renaming.Sight

/-! # Renaming what is bound to a declaration

If a declaration and exactly the references that are bound to it get a new name, then every
name is spelled as it is to be understood. Along the walk, the old name stands for the
renamed declaration wherever that is the nearest one.
-/

namespace LoxLang

/-- Whether a name is the declaration at a place, or a reference bound to it. -/
def Role.isOf (place : Nat) (name : Occurrence) : Role → Bool
  | .declares => name.place = place
  | .refers declaration => declaration.any (·.place = place)
  | .other => false

namespace Origins

def nearest? (origins : Origins) (name : String) : Option Occurrence :=
  origins.findSome? (·.get? name)

theorem nearest?_cons (table : Bindings Occurrence) (outer : Origins) (name : String) :
    nearest? (table :: outer) name = (table.get? name).or (nearest? outer name) := by
  simp only [nearest?, List.findSome?_cons]
  cases table.get? name <;> rfl

theorem nearest?_declare {origins : Origins} (inside : origins ≠ []) (name : Occurrence)
    (other : String) : (origins.declare name).nearest? other =
      if name.lexeme = other then some name else origins.nearest? other := by
  cases origins with
  | nil => exact absurd rfl inside
  | cons table outer =>
      rw [declare, nearest?_cons, nearest?_cons, Bindings.get?_bind]
      split <;> rfl

end Origins

section Renaming

variable (respelling : Respelling) (move : Occurrence → Occurrence) (place : Nat)

/-- The new name is given to the declaration at the place, which has the old name, and to
the references bound to it, and it is not used otherwise. -/
structure Suits (entry : Occurrence × Role) : Prop where
  fresh : entry.1.lexeme ≠ respelling.new
  spelling : (move entry.1).lexeme =
    if entry.2.isOf place entry.1 then respelling.new else entry.1.lexeme
  here : entry.1.place = place → entry.2 = .declares ∧ entry.1.lexeme = respelling.old
  unreserved : entry.2 ≠ .other → entry.1.lexeme ∉ reservedNames

/-- The declarations are those of the scopes, and the old name stands for the renamed one
if that is the nearest. -/
structure Tracks (sight : Sight) (origins : Origins) (scopes : Scopes) : Prop where
  levels : List.Forall₂ (fun (table : Bindings Occurrence) (scope : Scope) =>
    ∀ name, name ∉ reservedNames → (table.get? name).isSome = scope.contains name)
    origins scopes
  named : ∀ name declaration, origins.nearest? name = some declaration →
    declaration.lexeme = name ∧ (declaration.place = place → name = respelling.old)
  notApart : sight ≠ .apart
  outside : sight = .outside ↔ origins = []
  renamed : sight = .renamed ↔
    ∃ declaration, origins.nearest? respelling.old = some declaration ∧
      declaration.place = place

variable {respelling move place} {sight : Sight} {origins : Origins} {scopes : Scopes}

namespace Tracks

theorem topLevel : Tracks respelling place .outside [] [] where
  levels := .nil
  named := nofun
  notApart := nofun
  outside := ⟨fun _ => rfl, fun _ => rfl⟩
  renamed := ⟨nofun, nofun⟩

theorem allows (suits : respelling.new ≠ name) : sight.Allows respelling name := by
  cases sight with
  | apart | outside => trivial
  | plain | renamed => exact suits.symm

theorem of?_eq (tracks : Tracks respelling place sight origins scopes)
    {settlement : Settlement} {name : Occurrence} (unreserved : name.lexeme ∉ reservedNames)
    (binds : settlement.Binds scopes name) :
    origins.of? settlement.distances name = origins.nearest? name.lexeme := by
  rw [Origins.of?, binds.2]
  have levels := tracks.levels
  clear tracks binds
  induction levels with
  | nil => rfl
  | @cons table scope outer outer' level _ induction =>
      rw [Scopes.distance?_cons, Origins.nearest?_cons, ← level _ unreserved, ← induction]
      cases found : table.get? name.lexeme with
      | none => cases Scopes.distance? outer' name.lexeme <;> rfl
      | some declaration => simp [found]

theorem isOf_nearest (tracks : Tracks respelling place sight origins scopes)
    (name : Occurrence) : (Role.refers (origins.nearest? name.lexeme)).isOf place name ↔
      sight = .renamed ∧ name.lexeme = respelling.old := by
  rw [Role.isOf, Option.any_eq_true, tracks.renamed]
  constructor
  · intro bound
    obtain ⟨declaration, found, here⟩ := bound
    have here := of_decide_eq_true here
    have isOld := (tracks.named _ _ found).2 here
    exact ⟨⟨declaration, isOld ▸ found, here⟩, isOld⟩
  · intro bound
    obtain ⟨⟨declaration, found, here⟩, isOld⟩ := bound
    exact ⟨declaration, isOld ▸ found, decide_eq_true here⟩

theorem refers (tracks : Tracks respelling place sight origins scopes) {name : Occurrence}
    (suits : Suits respelling move place (name, .refers (origins.nearest? name.lexeme))) :
    sight.Refers respelling move name := by
  refine ⟨allows suits.fresh.symm, suits.spelling.trans ?_⟩
  simp only [tracks.isOf_nearest name]
  cases sight with
  | apart => exact absurd rfl tracks.notApart
  | outside | plain => exact if_neg (fun both => nomatch both.1)
  | renamed => simp only [true_and, Sight.spell]

theorem refers_reserved {keyword : Occurrence}
    (suits : Suits respelling move place (keyword, .other))
    (reserved : keyword.lexeme ∈ reservedNames) : sight.Refers respelling move keyword :=
  ⟨Sight.allows_reserved reserved,
    suits.spelling.trans (Sight.spell_reserved reserved).symm⟩

theorem isOf_declared {name : Occurrence} {role : Role}
    (suits : Suits respelling move place (name, role))
    (isDeclared : role = .other ∨ role = Role.ofVariable origins) :
    role.isOf place name = decide (name.place = place) ∧
      (name.place = place → origins ≠ []) := by
  cases origins with
  | nil =>
      obtain rfl : role = .other := isDeclared.elim id id
      have elsewhere : name.place ≠ place := fun same => nomatch (suits.here same).1
      exact ⟨(decide_eq_false elsewhere).symm, fun same => absurd same elsewhere⟩
  | cons table outer =>
      refine ⟨?_, fun _ => nofun⟩
      cases isDeclared with
      | inl other =>
          subst other
          exact (decide_eq_false fun same => nomatch (suits.here same).1).symm
      | inr declares =>
          subst declares
          rfl

section Declared

variable {name : Occurrence} {role : Role}
  (suits : Suits respelling move place (name, role))
  (spelling : (move name).lexeme =
    if name.place = place then respelling.new else name.lexeme)

include suits spelling

/-- A declaration of the old name is the renamed one, or hides it. -/
theorem after_eq (notApart : sight ≠ .apart) (notOutside : sight ≠ .outside) :
    sight.after respelling move name =
      if name.lexeme = respelling.old then
        if name.place = place then .renamed else .plain
      else sight := by
  rw [Sight.after, spelling]
  cases sight with
  | apart => exact absurd rfl notApart
  | outside => exact absurd rfl notOutside
  | plain | renamed =>
      rw [Sight.declare]
      split
      case isFalse => rfl
      case isTrue same =>
          by_cases here : name.place = place
          · rw [if_pos here, if_pos here, if_neg suits.fresh.symm]
          · rw [if_neg here, if_neg here, if_pos rfl]

theorem declares (notApart : sight ≠ .apart) (notOutside : sight ≠ .outside) :
    sight.Declares respelling move name := by
  refine ⟨allows suits.fresh.symm, spelling.trans ?_⟩
  rw [after_eq suits spelling notApart notOutside]
  by_cases same : name.lexeme = respelling.old
  · by_cases here : name.place = place
    · rw [if_pos here, if_pos same, if_pos here, Sight.spell, if_pos same]
    · rw [if_neg here, if_pos same, if_neg here, Sight.spell]
  · rw [if_neg fun here => same (suits.here here).2, if_neg same, Sight.spell_of_ne same]

theorem declareInside (tracks : Tracks respelling place sight origins scopes)
    (inside : origins ≠ []) (complete : Bool) :
    Tracks respelling place (sight.after respelling move name) (origins.declare name)
      (scopes.enter name.lexeme complete) := by
  have notOutside : sight ≠ .outside := mt tracks.outside.mp inside
  have nearest := Origins.nearest?_declare inside name
  constructor
  case levels =>
    have levels := tracks.levels
    cases levels with
    | nil => exact absurd rfl inside
    | cons level levels =>
        refine .cons ?_ levels
        intro other unreserved
        rw [Bindings.get?_bind, Bindings.contains_bind, ← level other unreserved]
        by_cases same : name.lexeme = other <;> simp [same]
  case named =>
    intro other declaration found
    rw [nearest] at found
    split at found
    case isTrue same =>
        obtain rfl := Option.some.inj found
        exact ⟨same, fun here => same ▸ (suits.here here).2⟩
    case isFalse => exact tracks.named other declaration found
  case notApart => exact Sight.declare_ne_apart tracks.notApart
  case outside =>
    cases origins with
    | nil => exact absurd rfl inside
    | cons table outer =>
        exact ⟨fun outside => absurd outside (Sight.declare_ne_outside notOutside),
          fun none => absurd none (List.cons_ne_nil _ _)⟩
  case renamed =>
    rw [after_eq suits spelling tracks.notApart notOutside, nearest]
    split
    case isTrue =>
        split
        case isTrue here => exact ⟨fun _ => ⟨name, rfl, here⟩, fun _ => rfl⟩
        case isFalse elsewhere =>
            refine ⟨fun same => absurd same (by decide), fun bound => ?_⟩
            obtain ⟨declaration, found, here⟩ := bound
            obtain rfl := Option.some.inj found
            exact absurd here elsewhere
    case isFalse => exact tracks.renamed

end Declared

theorem declare (tracks : Tracks respelling place sight origins scopes) {name : Occurrence}
    {role : Role} (suits : Suits respelling move place (name, role))
    (isDeclared : role = .other ∨ role = Role.ofVariable origins) (complete : Bool) :
    sight.Declares respelling move name ∧
      Tracks respelling place (sight.after respelling move name) (origins.declare name)
        (scopes.enter name.lexeme complete) := by
  obtain ⟨isOf, local_⟩ := isOf_declared suits isDeclared
  have spelling := suits.spelling
  simp only [isOf, decide_eq_true_eq] at spelling
  by_cases inside : origins = []
  · subst inside
    obtain rfl := tracks.outside.mpr rfl
    obtain rfl : scopes = [] := List.forall₂_nil_left_iff.mp tracks.levels
    rw [if_neg fun same => local_ same rfl] at spelling
    exact ⟨⟨allows suits.fresh.symm, spelling⟩, tracks⟩
  · have notOutside : sight ≠ .outside := mt tracks.outside.mp inside
    exact ⟨declares suits spelling tracks.notApart notOutside,
      declareInside suits spelling tracks inside complete⟩

theorem nest (tracks : Tracks respelling place sight origins scopes) {names : List String}
    (reserved : ∀ name ∈ names, name ∈ reservedNames) :
    Tracks respelling place sight.enter (origins.nest []) (scopes.nest names) := by
  obtain ⟨scope, nested, found⟩ := scopes.nest_eq names
  have nearest : ∀ name, (origins.nest []).nearest? name = origins.nearest? name :=
    fun name => Origins.nearest?_cons _ _ _
  rw [nested]
  constructor
  case levels =>
    refine .cons ?_ tracks.levels
    intro name unreserved
    rw [Bindings.get?_empty, Bindings.contains, found,
      if_neg fun member => unreserved (reserved name member)]
    rfl
  case named =>
    intro name declaration
    rw [nearest]
    exact tracks.named name declaration
  case notApart => exact Sight.enter_ne_apart tracks.notApart
  case outside =>
    exact ⟨fun outside => absurd outside sight.enter_ne_outside,
      fun none => absurd none (List.cons_ne_nil _ _)⟩
  case renamed =>
    rw [nearest, ← tracks.renamed]
    cases sight with
    | outside => exact iff_of_false (by decide) (by decide)
    | apart | plain | renamed => rfl

theorem declareAll {names : List Occurrence}
    (suits : ∀ name ∈ names, Suits respelling move place (name, .declares)) :
    ∀ {sight origins scopes}, Tracks respelling place sight origins scopes → origins ≠ [] →
      sight.DeclaresAll respelling move names ∧
        Tracks respelling place (sight.afterAll respelling move names)
          (names.foldl Origins.declare origins)
          ((names.map (·.lexeme)).foldl Scopes.define scopes) := by
  induction names with
  | nil => exact fun tracks _ => ⟨trivial, tracks⟩
  | cons name rest induction =>
      intro sight origins scopes tracks inside
      obtain ⟨first, later⟩ := List.forall_mem_cons.mp suits
      cases origins with
      | nil => exact absurd rfl inside
      | cons table outer =>
          obtain ⟨declares, behind⟩ := tracks.declare first (.inr rfl) true
          obtain ⟨others, all⟩ := induction later behind (List.cons_ne_nil _ _)
          exact ⟨⟨declares, others⟩, all⟩

theorem insideClass (tracks : Tracks respelling place sight origins scopes)
    (superclass : Option Occurrence) :
    Tracks respelling place sight.enter (origins.insideClass superclass)
      (scopes.insideClass superclass) := by
  cases superclass with
  | none => exact tracks.nest (by decide)
  | some superclass =>
      have both := (tracks.nest (show ∀ name ∈ ["super"], name ∈ reservedNames by decide)).nest
        (show ∀ name ∈ ["this"], name ∈ reservedNames by decide)
      rwa [Sight.enter_enter] at both

end Tracks

theorem Suits.keeps {name : Occurrence}
    (suits : Suits respelling move place (name, .other)) : name.Keeps move := suits.spelling

end Renaming

/-! ## Trees -/

section Trees

variable {respelling : Respelling} {move : Occurrence → Occurrence} {place : Nat}
  {settlement : Settlement}

abbrev SuitAll (respelling : Respelling) (move : Occurrence → Occurrence) (place : Nat)
    (roles : List (Occurrence × Role)) : Prop :=
  ∀ entry ∈ roles, Suits respelling move place entry

theorem Tracks.reference {sight : Sight} {origins : Origins} {scopes : Scopes}
    (tracks : Tracks respelling place sight origins scopes) {name : Occurrence}
    (suits : Suits respelling move place
      (Role.ofReference settlement.distances origins name))
    (binds : settlement.Binds scopes name) : sight.Refers respelling move name := by
  rw [Role.ofReference, tracks.of?_eq (suits.unreserved nofun) binds] at suits
  exact tracks.refers suits

mutual

theorem Expr.fits_of_suits {sight : Sight} {origins : Origins} {scopes : Scopes}
    (tracks : Tracks respelling place sight origins scopes) :
    ∀ expression : Expr, expression.Settled settlement scopes →
      SuitAll respelling move place (expression.roles settlement.distances origins) →
        expression.Fits respelling move sight
  | .assign name value, ⟨settled, binds, _⟩, suits => by
      obtain ⟨here, suits⟩ := List.forall_mem_cons.mp suits
      exact ⟨tracks.reference here binds, Expr.fits_of_suits tracks value settled suits⟩
  | .binary left _ _ right, ⟨settled, settled'⟩, suits
  | .logical left _ _ right, ⟨settled, settled'⟩, suits => by
      obtain ⟨suits, suits'⟩ := List.forall_mem_append.mp suits
      exact ⟨Expr.fits_of_suits tracks left settled suits,
        Expr.fits_of_suits tracks right settled' suits'⟩
  | .call callee _ arguments, ⟨settled, settled'⟩, suits => by
      obtain ⟨suits, suits'⟩ := List.forall_mem_append.mp suits
      exact ⟨Expr.fits_of_suits tracks callee settled suits,
        Expr.fitsAll_of_suits tracks arguments settled' suits'⟩
  | .get object name, settled, suits => by
      obtain ⟨suits, suits'⟩ := List.forall_mem_append.mp suits
      exact ⟨(List.forall_mem_singleton.mp suits').keeps,
        Expr.fits_of_suits tracks object settled suits⟩
  | .grouping inner, settled, suits => Expr.fits_of_suits tracks inner settled suits
  | .literal _, _, _ => trivial
  | .set object name value, ⟨settled, settled'⟩, suits => by
      obtain ⟨suits, suits'⟩ := List.forall_mem_append.mp suits
      obtain ⟨here, suits'⟩ := List.forall_mem_cons.mp suits'
      exact ⟨here.keeps, Expr.fits_of_suits tracks object settled suits,
        Expr.fits_of_suits tracks value settled' suits'⟩
  | .super keyword method, settled, suits => by
      obtain ⟨here, suits⟩ := List.forall_mem_cons.mp suits
      have reserved : keyword.lexeme ∈ reservedNames := by
        rw [settled.lexeme]
        decide
      exact ⟨Tracks.refers_reserved here reserved, (List.forall_mem_singleton.mp suits).keeps⟩
  | .this keyword, settled, suits => by
      have reserved : keyword.lexeme ∈ reservedNames := by
        rw [settled.lexeme]
        decide
      exact Tracks.refers_reserved (List.forall_mem_singleton.mp suits) reserved
  | .unary _ _ right, settled, suits => Expr.fits_of_suits tracks right settled suits
  | .variable name, settled, suits =>
    tracks.reference (List.forall_mem_singleton.mp suits) settled.binds

theorem Expr.fitsAll_of_suits {sight : Sight} {origins : Origins} {scopes : Scopes}
    (tracks : Tracks respelling place sight origins scopes) :
    ∀ expressions : List Expr, Expr.SettledAll settlement scopes expressions →
      SuitAll respelling move place (Expr.rolesOfAll settlement.distances origins expressions) →
        Expr.FitsAll respelling move sight expressions
  | [], _, _ => trivial
  | expression :: rest, ⟨settled, settled'⟩, suits => by
      obtain ⟨suits, suits'⟩ := List.forall_mem_append.mp suits
      exact ⟨Expr.fits_of_suits tracks expression settled suits,
        Expr.fitsAll_of_suits tracks rest settled' suits'⟩

end

theorem Expr.fitsOption_of_suits {sight : Sight} {origins : Origins} {scopes : Scopes}
    (tracks : Tracks respelling place sight origins scopes) :
    ∀ expression : Option Expr, Expr.SettledOption settlement scopes expression →
      SuitAll respelling move place
        (Expr.rolesOfOption settlement.distances origins expression) →
        Expr.FitsOption respelling move sight expression
  | none, _, _ => trivial
  | some expression, settled, suits => Expr.fits_of_suits tracks expression settled suits

theorem Tracks.superclass {sight : Sight} {origins : Origins} {scopes : Scopes}
    (tracks : Tracks respelling place sight origins scopes) {name : Occurrence}
    (behind : Tracks respelling place (sight.after respelling move name)
      (origins.declare name) (scopes.define name.lexeme)) {clause : Option Occurrence}
    (settled : scopes.SettledSuperclass settlement name clause)
    (suits : SuitAll respelling move place (clause.toList.map
      (Role.ofReference settlement.distances (origins.declare name)))) :
    ∀ superclass ∈ clause, sight.Refers respelling move superclass := by
  intro superclass member
  obtain rfl := Option.mem_def.mp member
  obtain ⟨different, reads⟩ := settled
  have here := List.forall_mem_singleton.mp suits
  have binds : settlement.Binds (scopes.define name.lexeme) superclass := by
    refine ⟨reads.binds.1, reads.binds.2.trans ?_⟩
    exact (Scopes.distance?_enter different.symm).symm
  have nearest : (origins.declare name).nearest? superclass.lexeme =
      origins.nearest? superclass.lexeme := by
    cases origins with
    | nil => rfl
    | cons table outer =>
        rw [Origins.nearest?_declare (List.cons_ne_nil _ _), if_neg different.symm]
  rw [Role.ofReference, behind.of?_eq (here.unreserved nofun) binds, nearest] at here
  exact tracks.refers here

mutual

/-- If the declaration at a place and what is bound to it are renamed, a statement is
spelled accordingly. -/
theorem Stmt.fits_of_suits :
    ∀ {sight origins scopes}, Tracks respelling place sight origins scopes →
      ∀ statement : Stmt, statement.Settled settlement scopes →
        SuitAll respelling move place (statement.roles settlement.distances origins) →
          statement.Fits respelling move sight ∧
            Tracks respelling place (statement.sightAfter respelling move sight)
              (statement.originsAfter origins) (statement.scopesAfter scopes)
  | _, _, _, tracks, .block statements, settled, suits =>
    ⟨Stmt.fitsAll_of_suits (tracks.nest (by decide)) statements settled suits, tracks⟩
  | _, _, _, tracks, .classDecl name superclass methods, ⟨_, clause, settled⟩, suits => by
      obtain ⟨here, suits⟩ := List.forall_mem_cons.mp suits
      obtain ⟨suits, suits'⟩ := List.forall_mem_append.mp suits
      obtain ⟨declares, behind⟩ := tracks.declare here (.inl rfl) true
      have methods' := Routine.fitsAll_of_suits (behind.insideClass superclass) methods
        settled suits'
      exact ⟨⟨⟨here.keeps, declares⟩, tracks.superclass behind clause suits,
        (Routine.fitsAll_enter respelling move _ methods).mp methods'⟩, behind⟩
  | _, _, _, tracks, .expression inner, settled, suits
  | _, _, _, tracks, .print inner, settled, suits =>
    ⟨Expr.fits_of_suits tracks inner settled suits, tracks⟩
  | _, _, _, tracks, .function (.mk name parameters body), ⟨_, settled⟩, suits => by
      obtain ⟨here, _⟩ := List.forall_mem_cons.mp suits
      obtain ⟨declares, behind⟩ := tracks.declare here (.inl rfl) true
      exact ⟨⟨declares, Routine.fits_of_suits behind _ settled suits⟩, behind⟩
  | _, _, _, tracks, .ifThen condition thenBranch none, ⟨settled, _, settled'⟩, suits => by
      obtain ⟨suits, suits'⟩ := List.forall_mem_append.mp suits
      exact ⟨⟨Expr.fits_of_suits tracks condition settled suits,
        (Stmt.fits_of_suits tracks thenBranch settled' suits').1⟩, tracks⟩
  | _, _, _, tracks, .ifThen condition thenBranch (some elseBranch),
      ⟨settled, ⟨_, settled'⟩, _, settled''⟩, suits => by
      obtain ⟨suits, suits'⟩ := List.forall_mem_append.mp suits
      obtain ⟨suits', suits''⟩ := List.forall_mem_append.mp suits'
      exact ⟨⟨Expr.fits_of_suits tracks condition settled suits,
        (Stmt.fits_of_suits tracks thenBranch settled' suits').1,
        (Stmt.fits_of_suits tracks elseBranch settled'' suits'').1⟩, tracks⟩
  | _, _, _, tracks, .returns _ value, settled, suits =>
    ⟨Expr.fitsOption_of_suits tracks value settled suits, tracks⟩
  | _, _, _, tracks, .var name initializer, ⟨_, settled⟩, suits => by
      obtain ⟨here, suits⟩ := List.forall_mem_cons.mp suits
      obtain ⟨declares, during⟩ := tracks.declare here (.inr rfl) false
      obtain ⟨_, behind⟩ := tracks.declare here (.inr rfl) true
      exact ⟨⟨declares, Expr.fitsOption_of_suits during initializer settled suits⟩, behind⟩
  | _, _, _, tracks, .whileLoop condition body, ⟨settled, _, settled'⟩, suits => by
      obtain ⟨suits, suits'⟩ := List.forall_mem_append.mp suits
      exact ⟨⟨Expr.fits_of_suits tracks condition settled suits,
        (Stmt.fits_of_suits tracks body settled' suits').1⟩, tracks⟩

theorem Routine.fits_of_suits :
    ∀ {sight origins scopes}, Tracks respelling place sight origins scopes →
      ∀ routine : Routine, routine.Settled settlement scopes →
        SuitAll respelling move place (routine.roles settlement.distances origins) →
          routine.Fits respelling move sight
  | _, _, _, tracks, .mk name parameters body, ⟨_, settled⟩, suits => by
      obtain ⟨here, suits⟩ := List.forall_mem_cons.mp suits
      obtain ⟨suits, suits'⟩ := List.forall_mem_append.mp suits
      have parameters' : ∀ name ∈ parameters, Suits respelling move place (name, .declares) :=
        List.forall_mem_map.mp suits
      obtain ⟨declares, inside⟩ := Tracks.declareAll parameters'
        (tracks.nest (show ∀ name ∈ [], name ∈ reservedNames by decide))
        (List.cons_ne_nil _ _)
      exact ⟨here.keeps, declares, Stmt.fitsAll_of_suits inside body settled suits'⟩

theorem Stmt.fitsAll_of_suits :
    ∀ {sight origins scopes}, Tracks respelling place sight origins scopes →
      ∀ statements : List Stmt, Stmt.SettledAll settlement scopes statements →
        SuitAll respelling move place
          (Stmt.rolesOfAll settlement.distances origins statements) →
            Stmt.FitsAll respelling move sight statements
  | _, _, _, _, [], _, _ => trivial
  | _, _, _, tracks, statement :: rest, ⟨settled, settled'⟩, suits => by
      obtain ⟨suits, suits'⟩ := List.forall_mem_append.mp suits
      obtain ⟨fits, behind⟩ := Stmt.fits_of_suits tracks statement settled suits
      exact ⟨fits, Stmt.fitsAll_of_suits behind rest settled' suits'⟩

theorem Routine.fitsAll_of_suits :
    ∀ {sight origins scopes}, Tracks respelling place sight origins scopes →
      ∀ routines : List Routine, Routine.SettledAll settlement scopes routines →
        SuitAll respelling move place
          (Routine.rolesOfAll settlement.distances origins routines) →
            Routine.FitsAll respelling move sight routines
  | _, _, _, _, [], _, _ => trivial
  | _, _, _, tracks, routine :: rest, ⟨settled, settled'⟩, suits => by
      obtain ⟨suits, suits'⟩ := List.forall_mem_append.mp suits
      exact ⟨Routine.fits_of_suits tracks routine settled suits,
        Routine.fitsAll_of_suits tracks rest settled' suits'⟩

end

end Trees

end LoxLang
