import LoxLang.Proofs.Binding.Reflection

/-! # Findings at sites

What the walk finds in a tree is what the regions around its sites say about them, site by
site, in some order. The words of the tree have to be of the kinds that their uses need,
and in order.
-/

namespace LoxLang

namespace BindingCause

def all : List BindingCause :=
  [alreadyDeclared, ownInitializer, topLevelReturn, initializerReturn, thisOutsideClass,
    superOutsideClass, superWithoutSuperclass, selfInheritance]

theorem mem_all (cause : BindingCause) : cause ∈ all := by
  cases cause <;> decide

theorem nodup_all : all.Nodup := by decide

end BindingCause

namespace Site

instance (site : Site) (cause : BindingCause) : Decidable (site.Violates cause) := by
  unfold Violates
  split <;> infer_instance

/-- The faults at a site, of which there are as many as the use of its word violates. -/
def faults (site : Site) : List BindingFault :=
  BindingCause.all.flatMap fun cause =>
    if site.Violates cause then [⟨site.word, cause⟩] else []

def distance? (site : Site) : Option Nat :=
  site.regions.findIdx? fun region => region.Knows site.word.lexeme site.word.place

def bindings (site : Site) : List Finding :=
  match site.reference?, site.distance? with
  | some _, some distance => [.bound site.word distance]
  | _, _ => []

def findings (site : Site) : List Finding := site.faults.map .fault ++ site.bindings

end Site

def Mention.Proper (mention : Mention) : Prop :=
  mention.word.kind = mention.use.wordKind ∧ mention.word.Spelled

theorem Mention.Proper.unreserved {name : Occurrence} (proper : (declaration name).Proper) :
    name.lexeme ∉ reservedNames :=
  proper.2.unreserved proper.1

/-- The declaration in the scope that is not complete is that of the variable whose
initializer is read. -/
def Scopes.Initializes (scopes : Scopes) (initialized : Option Occurrence) : Prop :=
  ∀ name, scopes.incompleteHere name ↔
    ∃ declaration ∈ initialized, scopes ≠ [] ∧ name = declaration.lexeme

/-! ## Single sites -/

section Sites

variable {scopes : Scopes} {regions : List Region} {name : Occurrence}

theorem Finding.redeclaration_eq (reflects : scopes.Reflects regions name.place) :
    Finding.redeclaration scopes name = Site.findings ⟨.declaration name, regions⟩ := by
  have known := reflects.declaredHere name.lexeme
  have faults : Site.faults ⟨.declaration name, regions⟩ =
      if scopes.declaredHere name.lexeme then [⟨name, .alreadyDeclared⟩] else [] := by
    simp only [known]
    simp [Site.faults, BindingCause.all, Site.Violates, Mention.declaration]
  rw [Finding.redeclaration, Finding.faultIf, Site.findings, faults]
  split <;> rfl

theorem Finding.reference_eq (reflects : scopes.Reflects regions name.place) {use : Use}
    {reference : Reference} (refers : (⟨use, name⟩ : Mention).reference? = some reference) :
    Finding.reference scopes name = Site.bindings ⟨⟨use, name⟩, regions⟩ := by
  rw [Finding.reference, reflects.distance?, Site.bindings, Site.distance?, refers]
  cases regions.findIdx? fun region => region.Knows name.lexeme name.place <;> rfl

theorem Finding.assignment_eq (reflects : scopes.Reflects regions name.place)
    (initialized : Option Occurrence) :
    Finding.reference scopes name =
      Site.findings ⟨⟨.refers .assignment initialized, name⟩, regions⟩ := by
  have refers : (⟨.refers .assignment initialized, name⟩ : Mention).reference? =
      some ⟨.assignment, name⟩ := rfl
  rw [reference_eq reflects refers, Site.findings]
  simp [Site.faults, BindingCause.all, Site.Violates]

theorem Finding.variableUse_eq (reflects : scopes.Reflects regions name.place)
    {initialized : Option Occurrence} (initializes : scopes.Initializes initialized) :
    Finding.variableUse scopes name =
      Site.findings ⟨⟨.refers .variable initialized, name⟩, regions⟩ := by
  have refers : (⟨.refers .variable initialized, name⟩ : Mention).reference? =
      some ⟨.variable, name⟩ := rfl
  have faults : Site.faults ⟨⟨.refers .variable initialized, name⟩, regions⟩ =
      if scopes.incompleteHere name.lexeme then [⟨name, .ownInitializer⟩] else [] := by
    simp only [initializes name.lexeme, ne_eq, reflects.eq_nil_iff]
    cases initialized with
    | none => simp [Site.faults, BindingCause.all, Site.Violates]
    | some declaration =>
        by_cases own : regions ≠ [] ∧ name.lexeme = declaration.lexeme <;>
          simp [Site.faults, BindingCause.all, Site.Violates, own]
  rw [Finding.variableUse, reference_eq reflects refers, Site.findings, faults,
    Finding.faultIf]
  split <;> rfl

theorem Finding.superclass_eq {subclass : Occurrence}
    (reflects : scopes.Reflects regions name.place) (complete : scopes.Initializes none) :
    Finding.superclass scopes subclass (some name) =
      Site.findings ⟨⟨.inherits subclass, name⟩, regions⟩ := by
  have refers : (⟨.inherits subclass, name⟩ : Mention).reference? =
      some ⟨.variable, name⟩ := rfl
  have incomplete : scopes.incompleteHere name.lexeme = false := by
    rw [← Bool.not_eq_true, complete name.lexeme]
    simp
  have faults : Site.faults ⟨⟨.inherits subclass, name⟩, regions⟩ =
      if subclass.lexeme = name.lexeme then [⟨name, .selfInheritance⟩] else [] := by
    by_cases itself : subclass.lexeme = name.lexeme <;>
      simp [Site.faults, BindingCause.all, Site.Violates, itself, Ne.symm]
  rw [Finding.superclass, Finding.variableUse, incomplete, reference_eq reflects refers,
    Site.findings, faults, Finding.faultIf, Finding.faultIf]
  by_cases itself : subclass.lexeme = name.lexeme
  · simp [itself, Finding.ofFault]
  · simp [itself]

theorem Surroundings.thisUse_eq (reflects : scopes.Reflects regions name.place)
    (unreserved : Region.Unreserved regions) (spelled : name.lexeme = "this")
    (initialized : Option Occurrence) :
    (Region.surroundings regions).thisUse scopes name =
      Site.findings ⟨⟨.refers .this initialized, name⟩, regions⟩ := by
  have refers : (⟨.refers .this initialized, name⟩ : Mention).reference? =
      some ⟨.this, name⟩ := rfl
  rw [Surroundings.thisUse, Site.findings]
  cases inside : regions.findSome? Region.derived? with
  | none =>
      have unbound : Site.bindings ⟨⟨.refers .this initialized, name⟩, regions⟩ = [] := by
        have unknown := unreserved.not_knows_this inside name.place
        have nowhere : (regions.findIdx? fun region =>
            region.Knows name.lexeme name.place) = none := by
          simpa [spelled] using unknown
        rw [Site.bindings, Site.distance?, nowhere]
        rfl
      rw [unbound]
      simp [Region.surroundings, inside, Site.faults, BindingCause.all, Site.Violates,
        Site.derived?, Finding.ofFault]
  | some derived =>
      rw [Finding.reference_eq reflects refers]
      cases derived <;>
        simp [Region.surroundings, inside, Site.faults, BindingCause.all, Site.Violates,
          Site.derived?]

theorem Surroundings.superUse_eq (reflects : scopes.Reflects regions name.place)
    (initialized : Option Occurrence) :
    (Region.surroundings regions).superUse scopes name =
      Site.findings ⟨⟨.refers .super initialized, name⟩, regions⟩ := by
  have refers : (⟨.refers .super initialized, name⟩ : Mention).reference? =
      some ⟨.super, name⟩ := rfl
  rw [Surroundings.superUse, Finding.reference_eq reflects refers, Site.findings]
  congr 1
  rcases inside : regions.findSome? Region.derived? with _ | _ | _ <;>
    simp [Region.surroundings, inside, Site.faults, BindingCause.all, Site.Violates,
      Site.derived?, Finding.ofFault]

theorem Surroundings.returnUse_eq (withValue : Bool) :
    (Region.surroundings regions).returnUse name withValue =
      Site.findings ⟨⟨.returns withValue, name⟩, regions⟩ := by
  have unbound : Site.bindings ⟨⟨.returns withValue, name⟩, regions⟩ = [] := rfl
  rw [Surroundings.returnUse, Site.findings, unbound, List.append_nil]
  rcases inside : regions.findSome? Region.routine? with _ | ⟨_ | _, routine⟩
  case none | some.function =>
    cases withValue <;>
      simp [Region.surroundings, inside, Site.faults, BindingCause.all, Site.Violates,
        Site.routine?, Finding.faultIf, Finding.ofFault]
  case some.method =>
    by_cases initializer : routine.isNamedInit <;> cases withValue <;>
      simp [Region.surroundings, inside, Site.faults, BindingCause.all, Site.Violates,
        Site.routine?, Finding.faultIf, Finding.ofFault, initializer]

end Sites

/-! ## Expressions -/

def Mention.findings (regions : List Region) (mentions : List Mention) : List Finding :=
  (sites regions mentions).flatMap Site.findings

theorem Mention.findings_cons (regions : List Region) (mention : Mention)
    (rest : List Mention) : findings regions (mention :: rest) =
      Site.findings ⟨mention, regions⟩ ++ findings regions rest := rfl

theorem Mention.findings_append (regions : List Region) (first second : List Mention) :
    findings regions (first ++ second) =
      findings regions first ++ findings regions second := by
  simp [findings, sites]

section Expressions

variable {scopes : Scopes} {regions : List Region} {initialized : Option Occurrence}

/-- The scopes reflect the regions at each of the words, which are spelled as their uses
need. -/
structure Scopes.Sees (scopes : Scopes) (regions : List Region)
    (mentions : List Mention) : Prop where
  follows : scopes.Follows regions [] mentions
  proper : ∀ mention ∈ mentions, mention.Proper

theorem Scopes.Sees.append {first second : List Mention}
    (sees : scopes.Sees regions (first ++ second)) :
    scopes.Sees regions first ∧ scopes.Sees regions second :=
  ⟨⟨sees.follows.subset (List.subset_append_left _ _),
      (List.forall_mem_append.mp sees.proper).1⟩,
    ⟨sees.follows.subset (List.subset_append_right _ _),
      (List.forall_mem_append.mp sees.proper).2⟩⟩

theorem Scopes.Sees.head {mention : Mention} {rest : List Mention}
    (sees : scopes.Sees regions (mention :: rest)) :
    scopes.Reflects regions mention.word.place ∧ mention.Proper :=
  ⟨sees.follows mention List.mem_cons_self, sees.proper mention List.mem_cons_self⟩

def Expr.Found (scopes : Scopes) (regions : List Region) (initialized : Option Occurrence)
    (references : List Reference) (findings : List Finding) : Prop :=
  scopes.Sees regions (references.map (.ofReference initialized)) →
    findings.Perm (Mention.findings regions (references.map (.ofReference initialized)))

namespace Expr.Found

theorem nil : Found scopes regions initialized [] [] := fun _ => .nil

theorem append {references references' : List Reference} {findings findings' : List Finding}
    (left : Found scopes regions initialized references findings)
    (right : Found scopes regions initialized references' findings') :
    Found scopes regions initialized (references ++ references')
      (findings ++ findings') := by
  intro sees
  rw [List.map_append] at sees ⊢
  rw [Mention.findings_append]
  exact (left sees.append.1).append (right sees.append.2)

theorem swap {references references' : List Reference} {findings findings' : List Finding}
    (left : Found scopes regions initialized references findings)
    (right : Found scopes regions initialized references' findings') :
    Found scopes regions initialized (references ++ references') (findings' ++ findings) :=
  fun sees => List.perm_append_comm.trans (left.append right sees)

theorem single {reference : Reference} {findings : List Finding}
    (found : scopes.Reflects regions reference.occurrence.place →
      (Mention.ofReference initialized reference).Proper →
        findings = Site.findings ⟨.ofReference initialized reference, regions⟩) :
    Found scopes regions initialized [reference] findings := by
  intro sees
  rw [found sees.head.1 sees.head.2, List.map_singleton, Mention.findings_cons]
  exact .of_eq (List.append_nil _).symm

end Expr.Found

mutual

theorem Expr.found_findings (unreserved : Region.Unreserved regions)
    (initializes : scopes.Initializes initialized) : ∀ expression : Expr,
    Expr.Found scopes regions initialized expression.references
      (expression.findings (Region.surroundings regions) scopes)
  | .assign name value =>
      have assignment : Expr.Found scopes regions initialized [⟨.assignment, name⟩] _ :=
        .single fun reflects _ => Finding.assignment_eq reflects initialized
      assignment.swap (Expr.found_findings unreserved initializes value)
  | .binary left _ _ right | .logical left _ _ right =>
      (Expr.found_findings unreserved initializes left).append
        (Expr.found_findings unreserved initializes right)
  | .call callee _ arguments =>
      (Expr.found_findings unreserved initializes callee).append
        (Expr.found_findingsOfAll unreserved initializes arguments)
  | .get object _ => Expr.found_findings unreserved initializes object
  | .grouping inner => Expr.found_findings unreserved initializes inner
  | .literal _ => .nil
  | .set object _ value =>
      (Expr.found_findings unreserved initializes object).swap
        (Expr.found_findings unreserved initializes value)
  | .super _ _ => .single fun reflects _ => Surroundings.superUse_eq reflects initialized
  | .this _ =>
      .single fun reflects proper => Surroundings.thisUse_eq reflects unreserved
        (proper.2.keyword .thisWord proper.1) initialized
  | .unary _ _ right => Expr.found_findings unreserved initializes right
  | .variable _ => .single fun reflects _ => Finding.variableUse_eq reflects initializes

theorem Expr.found_findingsOfAll (unreserved : Region.Unreserved regions)
    (initializes : scopes.Initializes initialized) : ∀ expressions : List Expr,
    Expr.Found scopes regions initialized (Expr.referencesOfAll expressions)
      (Expr.findingsOfAll (Region.surroundings regions) scopes expressions)
  | [] => .nil
  | expression :: rest =>
      (Expr.found_findings unreserved initializes expression).append
        (Expr.found_findingsOfAll unreserved initializes rest)

end

theorem Expr.found_findingsOfOption (unreserved : Region.Unreserved regions)
    (initializes : scopes.Initializes initialized) (expression : Option Expr) :
    Expr.Found scopes regions initialized (Expr.referencesOfOption expression)
      (Expr.findingsOfOption (Region.surroundings regions) scopes expression) := by
  cases expression with
  | none => exact .nil
  | some expression => exact Expr.found_findings unreserved initializes expression

end Expressions

end LoxLang
