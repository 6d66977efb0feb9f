import LoxLang.Proofs.Renaming.Sight

/-! # What is found in renamed programs

A program without faults in which every name is spelled as it is to be understood stays
without faults when it is renamed, and its references have the same distances. Like the
cells of a run, the scopes of both programs are the same ones under other names.
-/

namespace LoxLang

section Scopes

variable (respelling : Respelling)

structure Sight.Renames (sight : Sight) (scopes scopes' : Scopes) : Prop where
  topLevel : scopes' = [] ↔ scopes = []
  outside : sight = .outside ↔ scopes = []
  notApart : sight ≠ .apart
  distance? : ∀ name, sight.Allows respelling name →
    scopes'.distance? (sight.spell respelling name) = scopes.distance? name
  incompleteHere : ∀ name, sight.Allows respelling name →
    scopes'.incompleteHere (sight.spell respelling name) = scopes.incompleteHere name
  fresh : scopes.declaredHere respelling.old = false →
    scopes'.declaredHere respelling.old = false ∧
      scopes'.declaredHere respelling.new = false
  others : ∀ name, name ≠ respelling.old → name ≠ respelling.new →
    scopes'.declaredHere name = scopes.declaredHere name

variable {respelling} {sight : Sight} {scopes scopes' : Scopes} {name spelling : String}
  {move : Occurrence → Occurrence}

namespace Scopes

theorem incompleteHere_enter (inside : scopes ≠ []) (name other : String) (complete : Bool) :
    (scopes.enter name complete).incompleteHere other =
      if name = other then !complete else scopes.incompleteHere other := by
  cases scopes with
  | nil => exact absurd rfl inside
  | cons scope outer =>
      simp only [enter, incompleteHere, List.head?_cons, Option.any_some, Bindings.get?_bind]
      split
      · cases complete <;> rfl
      · rfl

theorem declaredHere_enter (inside : scopes ≠ []) (name other : String) (complete : Bool) :
    (scopes.enter name complete).declaredHere other =
      (decide (name = other) || scopes.declaredHere other) := by
  cases scopes with
  | nil => exact absurd rfl inside
  | cons scope outer =>
      simp only [enter, declaredHere, List.head?_cons, Option.any_some, Bindings.contains_bind]

theorem distance?_enter_of_ne_nil (inside : scopes ≠ []) (name other : String)
    (complete : Bool) : (scopes.enter name complete).distance? other =
      if name = other then some 0 else scopes.distance? other := by
  by_cases same : name = other
  · subst same
    cases scopes with
    | nil => exact absurd rfl inside
    | cons scope outer => simp [enter, distance?_cons, Bindings.contains_bind]
  · rw [distance?_enter same, if_neg same]

theorem enter_ne_nil (inside : scopes ≠ []) (name : String) (complete : Bool) :
    scopes.enter name complete ≠ [] := by
  cases scopes with
  | nil => exact absurd rfl inside
  | cons scope outer => nofun

theorem incompleteHere_nest (scopes : Scopes) (names : List String) (name : String) :
    (scopes.nest names).incompleteHere name = false := by
  obtain ⟨scope, nested, found⟩ := scopes.nest_eq names
  rw [nested, incompleteHere, List.head?_cons, Option.any_some, found]
  split <;> rfl

theorem declaredHere_nest (scopes : Scopes) (names : List String) (name : String) :
    (scopes.nest names).declaredHere name = decide (name ∈ names) := by
  obtain ⟨scope, nested, found⟩ := scopes.nest_eq names
  rw [nested, declaredHere, List.head?_cons, Option.any_some, Bindings.contains, found]
  by_cases member : name ∈ names <;> simp [member]

theorem nest_ne_nil (scopes : Scopes) (names : List String) : scopes.nest names ≠ [] := by
  obtain ⟨scope, nested, -⟩ := scopes.nest_eq names
  rw [nested]
  nofun

end Scopes

namespace Sight

namespace Renames

theorem nil : Renames respelling .outside [] [] where
  topLevel := Iff.rfl
  outside := ⟨fun _ => rfl, fun _ => rfl⟩
  notApart := nofun
  distance? _ _ := rfl
  incompleteHere _ _ := rfl
  fresh _ := ⟨rfl, rfl⟩
  others _ _ _ := rfl

theorem inside (renames : Renames respelling sight scopes scopes') (nonempty : scopes ≠ []) :
    sight = .plain ∨ sight = .renamed := by
  cases sight with
  | apart => exact absurd rfl renames.notApart
  | outside => exact absurd (renames.outside.mp rfl) nonempty
  | plain => exact .inl rfl
  | renamed => exact .inr rfl

theorem spelling_cases (renames : Renames respelling sight scopes scopes')
    (nonempty : scopes ≠ []) {name : Occurrence}
    (declares : sight.Declares respelling move name) :
    name.lexeme = respelling.old ∧
        ((move name).lexeme = respelling.old ∨ (move name).lexeme = respelling.new) ∨
      name.lexeme ≠ respelling.old ∧ name.lexeme ≠ respelling.new ∧
        (move name).lexeme = name.lexeme := by
  by_cases isOld : name.lexeme = respelling.old
  · refine .inl ⟨isOld, ?_⟩
    rw [declares.spelling, isOld]
    cases sight.after respelling move name with
    | apart | outside | plain => exact .inl rfl
    | renamed => exact .inr (if_pos rfl)
  · have allowed : sight.Allows respelling name.lexeme :=
      Sight.allows_declare.mp declares.allowed
    refine .inr ⟨isOld, ?_, declares.spelling.trans (spell_of_ne isOld)⟩
    obtain rfl | rfl := renames.inside nonempty <;> exact allowed

theorem enter (renames : Renames respelling sight scopes scopes') {name : Occurrence}
    (declares : sight.Declares respelling move name) (complete : Bool) :
    Renames respelling (sight.after respelling move name)
      (scopes.enter name.lexeme complete) (scopes'.enter (move name).lexeme complete) := by
  by_cases empty : scopes = []
  · obtain rfl := renames.outside.mpr empty
    obtain rfl := renames.topLevel.mpr empty
    subst empty
    exact renames
  have nonempty : scopes' ≠ [] := mt renames.topLevel.mp empty
  have notOutside : sight ≠ .outside := mt renames.outside.mp empty
  have spelled : ∀ other, (sight.after respelling move name).Allows respelling other →
      ((move name).lexeme = (sight.after respelling move name).spell respelling other ↔
        name.lexeme = other) := fun _ allowed =>
    spelling_eq_iff declares.allowed declares.spelling allowed
  have spellings := renames.spelling_cases empty declares
  constructor
  case topLevel =>
    exact ⟨fun none => absurd none (Scopes.enter_ne_nil nonempty _ _),
      fun none => absurd none (Scopes.enter_ne_nil empty _ _)⟩
  case outside =>
    exact ⟨fun outside => absurd outside (declare_ne_outside notOutside),
      fun none => absurd none (Scopes.enter_ne_nil empty _ _)⟩
  case notApart => exact declare_ne_apart renames.notApart
  case distance? =>
    intro other allowed
    rw [Scopes.distance?_enter_of_ne_nil nonempty, Scopes.distance?_enter_of_ne_nil empty]
    simp only [spelled other allowed]
    split
    case isTrue => rfl
    case isFalse different =>
        rw [after, spell_declare_of_ne different]
        exact renames.distance? other (allows_declare.mp allowed)
  case incompleteHere =>
    intro other allowed
    rw [Scopes.incompleteHere_enter nonempty, Scopes.incompleteHere_enter empty]
    simp only [spelled other allowed]
    split
    case isTrue => rfl
    case isFalse different =>
        rw [after, spell_declare_of_ne different]
        exact renames.incompleteHere other (allows_declare.mp allowed)
  case fresh =>
    intro undeclared
    rw [Scopes.declaredHere_enter empty, Bool.or_eq_false_iff] at undeclared
    obtain ⟨different, undeclared⟩ := undeclared
    obtain ⟨isOld, -⟩ | ⟨notOld, notNew, same⟩ := spellings
    · exact absurd isOld (of_decide_eq_false different)
    · rw [Scopes.declaredHere_enter nonempty, Scopes.declaredHere_enter nonempty, same,
        decide_eq_false notOld, decide_eq_false notNew]
      exact renames.fresh undeclared
  case others =>
    intro other notOld notNew
    rw [Scopes.declaredHere_enter nonempty, Scopes.declaredHere_enter empty,
      renames.others other notOld notNew]
    obtain ⟨isOld, isOld' | isNew⟩ | ⟨-, -, same⟩ := spellings
    · rw [isOld, isOld']
    · rw [isOld, isNew, decide_eq_false notOld.symm, decide_eq_false notNew.symm]
    · rw [same]

theorem declaredHere (renames : Renames respelling sight scopes scopes') {name : Occurrence}
    (declares : sight.Declares respelling move name)
    (fresh : scopes.declaredHere name.lexeme = false) :
    scopes'.declaredHere (move name).lexeme = false := by
  by_cases empty : scopes = []
  · rw [renames.topLevel.mpr empty]
    rfl
  obtain ⟨isOld, spelling⟩ | ⟨notOld, notNew, same⟩ := renames.spelling_cases empty declares
  · rw [isOld] at fresh
    obtain ⟨old, new⟩ := renames.fresh fresh
    obtain same | same := spelling
    · rw [same, old]
    · rw [same, new]
  · rw [same, renames.others _ notOld notNew, fresh]

theorem nest (renames : Renames respelling sight scopes scopes') {names : List String}
    (reserved : ∀ name ∈ names, name ∈ reservedNames) :
    Renames respelling sight.enter (scopes.nest names) (scopes'.nest names) := by
  have old : respelling.old ∉ names := fun member =>
    respelling.ne_old (reserved _ member) rfl
  have new : respelling.new ∉ names := fun member =>
    respelling.ne_new (reserved _ member) rfl
  have spells : ∀ name, sight.enter.spell respelling name = sight.spell respelling name := by
    intro name
    cases sight <;> rfl
  have allows : ∀ name, sight.enter.Allows respelling name → sight.Allows respelling name := by
    intro name
    cases sight with
    | outside => exact fun _ => trivial
    | apart | plain | renamed => exact id
  have member : ∀ name, sight.spell respelling name ∈ names ↔ name ∈ names := by
    intro name
    by_cases isOld : name = respelling.old
    · subst isOld
      have other : sight.spell respelling respelling.old ∉ names := by
        cases sight with
        | apart | outside | plain => exact old
        | renamed => rwa [spell, if_pos rfl]
      exact iff_of_false other old
    · rw [spell_of_ne isOld]
  constructor
  case topLevel =>
    exact ⟨fun none => absurd none (Scopes.nest_ne_nil _ _),
      fun none => absurd none (Scopes.nest_ne_nil _ _)⟩
  case outside =>
    exact ⟨fun outside => absurd outside sight.enter_ne_outside,
      fun none => absurd none (Scopes.nest_ne_nil _ _)⟩
  case notApart => exact enter_ne_apart renames.notApart
  case distance? =>
    intro name allowed
    rw [spells, Scopes.distance?_nest, Scopes.distance?_nest,
      renames.distance? name (allows name allowed)]
    simp only [member]
  case incompleteHere =>
    intro name _
    rw [Scopes.incompleteHere_nest, Scopes.incompleteHere_nest]
  case fresh =>
    intro _
    rw [Scopes.declaredHere_nest, Scopes.declaredHere_nest, decide_eq_false old,
      decide_eq_false new]
    exact ⟨rfl, rfl⟩
  case others =>
    intro name _ _
    rw [Scopes.declaredHere_nest, Scopes.declaredHere_nest]

theorem insideClass (renames : Renames respelling sight scopes scopes')
    (superclass : Option Occurrence) :
    Renames respelling sight.enter (scopes.insideClass superclass)
      (scopes'.insideClass (superclass.map move)) := by
  rw [Scopes.insideClass_map]
  cases superclass with
  | none => exact renames.nest (by decide)
  | some superclass =>
      have both := (renames.nest (show ∀ name ∈ ["super"], name ∈ reservedNames by decide)).nest
        (show ∀ name ∈ ["this"], name ∈ reservedNames by decide)
      rwa [Sight.enter_enter] at both

end Renames

end Sight

end Scopes

/-! ## Names -/

section Names

variable {respelling : Respelling} {move : Occurrence → Occurrence} {sight : Sight}
  {scopes scopes' : Scopes}

def Faultless (findings : List Finding) : Prop := ∀ fault, .fault fault ∉ findings

theorem faultless_append {first second : List Finding} :
    Faultless (first ++ second) ↔ Faultless first ∧ Faultless second := by
  simp only [Faultless, List.mem_append, not_or, forall_and]

theorem condition_of_faultless {condition : Bool} {token : Occurrence} {cause : BindingCause}
    (faultless : Faultless (Finding.faultIf condition token cause)) : condition = false := by
  cases condition with
  | false => rfl
  | true => exact absurd List.mem_cons_self (faultless ⟨token, cause⟩)

namespace Sight.Renames

variable (renames : sight.Renames respelling scopes scopes')

include renames

theorem reference {name : Occurrence} (refers : sight.Refers respelling move name) :
    Finding.reference scopes' (move name) =
      (Finding.reference scopes name).map (Finding.map move) := by
  rw [Finding.reference, Finding.reference, refers.spelling,
    renames.distance? _ refers.allowed]
  split <;> rfl

theorem variableUse {name : Occurrence} (refers : sight.Refers respelling move name) :
    Finding.variableUse scopes' (move name) =
      (Finding.variableUse scopes name).map (Finding.map move) := by
  rw [Finding.variableUse, Finding.variableUse, List.map_append, renames.reference refers,
    ← Finding.faultIf_map, refers.spelling, renames.incompleteHere _ refers.allowed]

theorem redeclaration {name : Occurrence} (declares : sight.Declares respelling move name)
    (faultless : Faultless (Finding.redeclaration scopes name)) :
    Finding.redeclaration scopes' (move name) =
      (Finding.redeclaration scopes name).map (Finding.map move) := by
  have fresh := condition_of_faultless faultless
  rw [Finding.redeclaration, Finding.redeclaration, fresh,
    renames.declaredHere declares fresh]
  rfl

omit renames in
theorem parameters {names : List Occurrence} :
    ∀ {sight : Sight} {scopes scopes' : Scopes}, sight.Renames respelling scopes scopes' →
      sight.DeclaresAll respelling move names →
        Faultless (Finding.parameters scopes names) →
          Finding.parameters scopes' (names.map move) =
              (Finding.parameters scopes names).map (Finding.map move) ∧
            (sight.afterAll respelling move names).Renames respelling
              ((names.map (·.lexeme)).foldl Scopes.define scopes)
              (((names.map move).map (·.lexeme)).foldl Scopes.define scopes') := by
  induction names with
  | nil => exact fun renames _ _ => ⟨rfl, renames⟩
  | cons name rest induction =>
      intro sight scopes scopes' renames declares faultless
      obtain ⟨here, later⟩ := faultless_append.mp faultless
      obtain ⟨others, behind⟩ := induction (renames.enter declares.1 true) declares.2 later
      refine ⟨?_, behind⟩
      rw [List.map_cons, Finding.parameters, Finding.parameters, List.map_append,
        renames.redeclaration declares.1 here]
      exact congrArg _ others

theorem superclass {name : Occurrence}
    (declares : sight.Declares respelling move name) {clause : Option Occurrence}
    (refers : ∀ superclass ∈ clause, sight.Refers respelling move superclass)
    (faultless : Faultless
      (Finding.superclass (scopes.define name.lexeme) name clause)) :
    Finding.superclass (scopes'.define (move name).lexeme) (move name) (clause.map move) =
      (Finding.superclass (scopes.define name.lexeme) name clause).map (Finding.map move) := by
  cases clause with
  | none => rfl
  | some superclass =>
      obtain ⟨notItself, -⟩ := faultless_append.mp faultless
      have different := of_decide_eq_false (condition_of_faultless notItself)
      have here := refers superclass rfl
      have behind : (sight.after respelling move name).Refers respelling move superclass :=
        ⟨Sight.allows_declare.mpr here.allowed,
          here.spelling.trans (Sight.spell_declare_of_ne different).symm⟩
      have different' : (move name).lexeme ≠ (move superclass).lexeme := by
        rw [behind.spelling, Ne,
          Sight.spelling_eq_iff declares.allowed declares.spelling behind.allowed]
        exact different
      rw [Option.map_some, Finding.superclass, Finding.superclass, List.map_append,
        decide_eq_false different, decide_eq_false different']
      exact (renames.enter declares true).variableUse behind

end Sight.Renames

end Names

/-! ## Trees -/

section Trees

variable {respelling : Respelling} {move : Occurrence → Occurrence}

mutual

theorem Expr.findings_renamed {sight : Sight} {scopes scopes' : Scopes}
    (renames : sight.Renames respelling scopes scopes') (surroundings : Surroundings) :
    ∀ expression : Expr, expression.Fits respelling move sight →
      (expression.map move).findings surroundings scopes' =
        (expression.findings surroundings scopes).map (Finding.map move)
  | .assign name value, ⟨refers, fits⟩ => by
      simp only [Expr.map, Expr.findings, List.map_append, renames.reference refers,
        Expr.findings_renamed renames surroundings value fits]
  | .binary left _ _ right, ⟨fits, fits'⟩ | .logical left _ _ right, ⟨fits, fits'⟩ => by
      simp only [Expr.map, Expr.findings, List.map_append,
        Expr.findings_renamed renames surroundings left fits,
        Expr.findings_renamed renames surroundings right fits']
  | .call callee _ arguments, ⟨fits, fits'⟩ => by
      simp only [Expr.map, Expr.findings, List.map_append,
        Expr.findings_renamed renames surroundings callee fits,
        Expr.findings_renamedAll renames surroundings arguments fits']
  | .get object _, ⟨_, fits⟩ => Expr.findings_renamed renames surroundings object fits
  | .grouping inner, fits => Expr.findings_renamed renames surroundings inner fits
  | .literal _, _ => rfl
  | .set object _ value, ⟨_, fits, fits'⟩ => by
      simp only [Expr.map, Expr.findings, List.map_append,
        Expr.findings_renamed renames surroundings object fits,
        Expr.findings_renamed renames surroundings value fits']
  | .super keyword _, ⟨refers, _⟩ => by
      simp only [Expr.map, Expr.findings, Surroundings.superUse, List.map_append,
        renames.reference refers]
      cases surroundings.enclosingClass <;> rfl
  | .this keyword, refers => by
      simp only [Expr.map, Expr.findings, Surroundings.thisUse, renames.reference refers]
      split <;> rfl
  | .unary _ _ right, fits => Expr.findings_renamed renames surroundings right fits
  | .variable name, refers => renames.variableUse refers

theorem Expr.findings_renamedAll {sight : Sight} {scopes scopes' : Scopes}
    (renames : sight.Renames respelling scopes scopes') (surroundings : Surroundings) :
    ∀ expressions : List Expr, Expr.FitsAll respelling move sight expressions →
      Expr.findingsOfAll surroundings scopes' (Expr.mapAll move expressions) =
        (Expr.findingsOfAll surroundings scopes expressions).map (Finding.map move)
  | [], _ => rfl
  | expression :: rest, ⟨fits, fits'⟩ => by
      simp only [Expr.mapAll, Expr.findingsOfAll, List.map_append,
        Expr.findings_renamed renames surroundings expression fits,
        Expr.findings_renamedAll renames surroundings rest fits']

end

theorem Expr.findings_renamedOption {sight : Sight} {scopes scopes' : Scopes}
    (renames : sight.Renames respelling scopes scopes') (surroundings : Surroundings) :
    ∀ expression : Option Expr, Expr.FitsOption respelling move sight expression →
      Expr.findingsOfOption surroundings scopes' (expression.map (Expr.map move)) =
        (Expr.findingsOfOption surroundings scopes expression).map (Finding.map move)
  | none, _ => rfl
  | some expression, fits => Expr.findings_renamed renames surroundings expression fits

theorem Surroundings.insideMethod_renamed {sight : Sight} (surroundings : Surroundings)
    {method : Routine} (fits : method.Fits respelling move sight) :
    surroundings.insideMethod (method.map move) = surroundings.insideMethod method := by
  have keeps : (move method.name).lexeme = method.name.lexeme := by
    cases method
    exact fits.1
  have same : (method.map move).isNamedInit = method.isNamedInit := by
    rw [Routine.isNamedInit, Routine.name_map, keeps, Routine.isNamedInit]
  rw [insideMethod, insideMethod, same]

mutual

/-- In a program without faults that is spelled accordingly, the same is found after the
renaming. -/
theorem Stmt.findings_renamed :
    ∀ {sight : Sight} {scopes scopes' : Scopes}, sight.Renames respelling scopes scopes' →
      ∀ surroundings (statement : Stmt), statement.Fits respelling move sight →
        Faultless (statement.findings surroundings scopes) →
          (statement.map move).findings surroundings scopes' =
              (statement.findings surroundings scopes).map (Finding.map move) ∧
            (statement.sightAfter respelling move sight).Renames respelling
              (statement.scopesAfter scopes) ((statement.map move).scopesAfter scopes')
  | _, _, _, renames, surroundings, .block statements, fits, faultless =>
    ⟨Stmt.findings_renamedAll (renames.nest (by decide)) surroundings statements fits
      faultless, renames⟩
  | _, _, scopes', renames, surroundings, .classDecl name superclass methods, fits,
      faultless => by
      obtain ⟨⟨_, declares⟩, refers, fits⟩ := fits
      obtain ⟨faultless, faultless'⟩ := faultless_append.mp faultless
      obtain ⟨faultless, faultless''⟩ := faultless_append.mp faultless
      have behind := renames.enter declares true
      have inside : Sight.Renames respelling _ _
          ((scopes'.define (move name).lexeme).insideClass (superclass.map move)) :=
        behind.insideClass superclass
      have methods' := Routine.findings_renamedAll inside
        (surroundings.insideClass superclass) methods
        ((Routine.fitsAll_enter respelling move _ methods).mpr fits) faultless'
      refine ⟨?_, behind⟩
      simp only [Stmt.map, Stmt.findings, List.map_append,
        renames.redeclaration declares faultless,
        renames.superclass declares refers faultless'',
        Surroundings.insideClass_map]
      exact congrArg _ methods'
  | _, _, _, renames, surroundings, .expression inner, fits, _
  | _, _, _, renames, surroundings, .print inner, fits, _ =>
    ⟨Expr.findings_renamed renames surroundings inner fits, renames⟩
  | _, _, _, renames, surroundings, .function (.mk name parameters body), ⟨declares, fits⟩,
      faultless => by
      obtain ⟨faultless, faultless'⟩ := faultless_append.mp faultless
      have behind := renames.enter declares true
      have inner := Routine.findings_renamed behind { surroundings with routine := .function }
        _ fits faultless'
      refine ⟨?_, behind⟩
      simp only [Stmt.map, Stmt.findings, List.map_append, Routine.name_map,
        renames.redeclaration declares faultless]
      exact congrArg _ inner
  | _, _, _, renames, surroundings, .ifThen condition thenBranch none, ⟨fits, fits'⟩,
      faultless => by
      obtain ⟨_, faultless⟩ := faultless_append.mp faultless
      refine ⟨?_, renames⟩
      simp only [Stmt.map, Stmt.findings, List.map_append,
        Expr.findings_renamed renames surroundings condition fits,
        (Stmt.findings_renamed renames surroundings thenBranch fits' faultless).1]
  | _, _, _, renames, surroundings, .ifThen condition thenBranch (some elseBranch),
      ⟨fits, fits', fits''⟩, faultless => by
      obtain ⟨faultless, faultless'⟩ := faultless_append.mp faultless
      obtain ⟨_, faultless⟩ := faultless_append.mp faultless
      refine ⟨?_, renames⟩
      simp only [Stmt.map, Stmt.findings, List.map_append,
        Expr.findings_renamed renames surroundings condition fits,
        (Stmt.findings_renamed renames surroundings thenBranch fits' faultless).1,
        (Stmt.findings_renamed renames surroundings elseBranch fits'' faultless').1]
  | _, _, _, renames, surroundings, .returns keyword value, fits, _ => by
      refine ⟨?_, renames⟩
      simp only [Stmt.map, Stmt.findings, List.map_append, Surroundings.returnUse_map,
        Option.isSome_map, Expr.findings_renamedOption renames surroundings value fits]
  | _, _, _, renames, surroundings, .var name initializer, ⟨declares, fits⟩, faultless => by
      obtain ⟨faultless, _⟩ := faultless_append.mp faultless
      refine ⟨?_, renames.enter declares true⟩
      simp only [Stmt.map, Stmt.findings, List.map_append,
        renames.redeclaration declares faultless]
      exact congrArg _ (Expr.findings_renamedOption (renames.enter declares false)
        surroundings initializer fits)
  | _, _, _, renames, surroundings, .whileLoop condition body, ⟨fits, fits'⟩,
      faultless => by
      obtain ⟨_, faultless⟩ := faultless_append.mp faultless
      refine ⟨?_, renames⟩
      simp only [Stmt.map, Stmt.findings, List.map_append,
        Expr.findings_renamed renames surroundings condition fits,
        (Stmt.findings_renamed renames surroundings body fits' faultless).1]

theorem Routine.findings_renamed :
    ∀ {sight : Sight} {scopes scopes' : Scopes}, sight.Renames respelling scopes scopes' →
      ∀ surroundings (routine : Routine), routine.Fits respelling move sight →
        Faultless (routine.findings surroundings scopes) →
          (routine.map move).findings surroundings scopes' =
            (routine.findings surroundings scopes).map (Finding.map move)
  | _, _, _, renames, surroundings, .mk _ parameters body, ⟨_, declares, fits⟩,
      faultless => by
      obtain ⟨faultless, faultless'⟩ := faultless_append.mp faultless
      have nested := renames.nest (show ∀ name ∈ [], name ∈ reservedNames by decide)
      obtain ⟨sameParameters, inside⟩ := Sight.Renames.parameters nested declares faultless
      have sameBody := Stmt.findings_renamedAll inside surroundings body fits faultless'
      simp only [Routine.map, Routine.findings, List.map_append, sameParameters]
      exact congrArg _ sameBody

theorem Stmt.findings_renamedAll :
    ∀ {sight : Sight} {scopes scopes' : Scopes}, sight.Renames respelling scopes scopes' →
      ∀ surroundings (statements : List Stmt), Stmt.FitsAll respelling move sight statements →
        Faultless (Stmt.findingsOfAll surroundings scopes statements) →
          Stmt.findingsOfAll surroundings scopes' (Stmt.mapAll move statements) =
            (Stmt.findingsOfAll surroundings scopes statements).map (Finding.map move)
  | _, _, _, _, _, [], _, _ => rfl
  | _, _, _, renames, surroundings, statement :: rest, ⟨fits, fits'⟩, faultless => by
      obtain ⟨faultless, faultless'⟩ := faultless_append.mp faultless
      obtain ⟨same, behind⟩ :=
        Stmt.findings_renamed renames surroundings statement fits faultless
      simp only [Stmt.mapAll, Stmt.findingsOfAll, List.map_append, same]
      exact congrArg _ (Stmt.findings_renamedAll behind surroundings rest fits' faultless')

theorem Routine.findings_renamedAll :
    ∀ {sight : Sight} {scopes scopes' : Scopes}, sight.Renames respelling scopes scopes' →
      ∀ surroundings (routines : List Routine),
        Routine.FitsAll respelling move sight routines →
          Faultless (Routine.findingsOfMethods surroundings scopes routines) →
            Routine.findingsOfMethods surroundings scopes' (Routine.mapAll move routines) =
              (Routine.findingsOfMethods surroundings scopes routines).map (Finding.map move)
  | _, _, _, _, _, [], _, _ => rfl
  | _, _, _, renames, surroundings, routine :: rest, ⟨fits, fits'⟩, faultless => by
      obtain ⟨faultless, faultless'⟩ := faultless_append.mp faultless
      have same := Routine.findings_renamed renames (surroundings.insideMethod routine)
        routine fits faultless
      simp only [Routine.mapAll, Routine.findingsOfMethods, List.map_append,
        surroundings.insideMethod_renamed fits, same,
        Routine.findings_renamedAll renames surroundings rest fits' faultless']

end

end Trees

end LoxLang
