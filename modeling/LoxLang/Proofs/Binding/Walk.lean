import LoxLang.Proofs.Binding.SiteFindings

/-! # The walk through statements

Between declarations all that has been declared is complete, and the scopes will reflect
the regions at each word still to come as soon as the names in front of it have been
declared. Every statement keeps it so for the next one. What it finds is therefore what
there is to find at its sites.
-/

namespace LoxLang

/-- The walk is where the words are about to be mentioned: all declarations made so far are
complete, and the scopes reflect the regions at each word once the names before it have
been declared. -/
structure Scopes.Await (scopes : Scopes) (regions : List Region)
    (names : List Occurrence) (mentions : List Mention) : Prop where
  complete : scopes.Complete
  unreserved : Region.Unreserved regions
  follows : scopes.Follows regions names mentions
  proper : ∀ mention ∈ mentions, mention.Proper

namespace Scopes

variable {scopes : Scopes} {regions : List Region}

theorem Complete.initializes (complete : scopes.Complete) : scopes.Initializes none := by
  intro name
  cases scopes with
  | nil => simp [incompleteHere]
  | cons scope outer =>
      have known := complete name
      rw [state?_cons] at known
      have here : scope.get? name ≠ some false := fun found => known (by simp [found])
      simp [incompleteHere, here]

theorem Complete.initializes_declare (complete : scopes.Complete) (name : Occurrence) :
    (scopes.declare name.lexeme).Initializes (some name) := by
  intro other
  cases scopes with
  | nil => simp [incompleteHere, Scopes.declare, Scopes.enter]
  | cons scope outer =>
      have known := complete other
      rw [state?_cons] at known
      have here : scope.get? other ≠ some false := fun found => known (by simp [found])
      by_cases same : name.lexeme = other
      · simp [incompleteHere, Scopes.declare, Scopes.enter, same]
      · simp [incompleteHere, Scopes.declare, Scopes.enter, same, here, Ne.symm same]

namespace Await

variable {names names' : List Occurrence} {mentions mentions' : List Mention}

theorem subset (await : scopes.Await regions names mentions)
    (fewer : mentions' ⊆ mentions) : scopes.Await regions names mentions' :=
  ⟨await.complete, await.unreserved, await.follows.subset fewer,
    fun mention member => await.proper mention (fewer member)⟩

theorem left (await : scopes.Await regions names (mentions ++ mentions')) :
    scopes.Await regions names mentions :=
  await.subset (List.subset_append_left _ _)

theorem right (await : scopes.Await regions names (mentions ++ mentions')) :
    scopes.Await regions names mentions' :=
  await.subset (List.subset_append_right _ _)

theorem behind (await : scopes.Await regions (names ++ names') mentions)
    (before : Mention.Before (names.map .declaration) mentions) :
    (scopes.defineAll names).Await regions names' mentions :=
  ⟨await.complete.defineAll names, await.unreserved, await.follows.behind before,
    await.proper⟩

theorem ahead (await : scopes.Await regions (names ++ names') mentions)
    (behind : ∀ mention ∈ mentions, ∀ name ∈ names', mention.word.place ≤ name.place) :
    scopes.Await regions names mentions :=
  ⟨await.complete, await.unreserved, await.follows.ahead behind, await.proper⟩

theorem sees (await : scopes.Await regions [] mentions) : scopes.Sees regions mentions :=
  ⟨await.follows, await.proper⟩

theorem nest (await : scopes.Await regions [] mentions) (region : Region)
    (given : region.given? = none)
    (declared : ∀ name ∈ region.declared, .declaration name ∈ mentions) :
    (scopes.nest []).Await (region :: regions) region.declared mentions where
  complete := await.complete.nest []
  unreserved := await.unreserved.cons fun name member =>
    (await.proper _ (declared name member)).unreserved
  follows := await.follows.nest region given
  proper := await.proper

theorem insideClass (await : scopes.Await regions [] mentions)
    (superclass : Option Occurrence) :
    (scopes.insideClass superclass).Await (Region.ofClass superclass ++ regions) []
      mentions where
  complete := await.complete.insideClass superclass
  unreserved := await.unreserved.ofClass superclass
  follows := await.follows.insideClass superclass
  proper := await.proper

theorem declaration {name : Occurrence}
    (await : scopes.Await regions (name :: names) (.declaration name :: mentions))
    (before : Mention.Before [.declaration name] mentions)
    (later : ∀ other ∈ names, name.place < other.place) :
    scopes.Reflects regions name.place ∧
      (scopes.define name.lexeme).Await regions names mentions := by
  have here : scopes.Await regions ([] ++ (name :: names)) [.declaration name] :=
    await.subset (by simp)
  have rest : scopes.Await regions ([name] ++ names) mentions :=
    await.subset (List.subset_cons_self _ _)
  refine ⟨(here.ahead ?_).sees.head.1, rest.behind before⟩
  intro mention member other member'
  obtain rfl := List.mem_singleton.mp member
  rcases List.mem_cons.mp member' with rfl | member'
  · exact Nat.le_refl _
  · exact Nat.le_of_lt (later other member')

end Await

end Scopes

theorem Finding.parameters_eq {regions : List Region} :
    ∀ {scopes : Scopes} (names : List Occurrence),
      scopes.Await regions names (names.map .declaration) →
        names.Pairwise (·.place < ·.place) →
          Finding.parameters scopes names =
            Mention.findings regions (names.map .declaration)
  | _, [], _, _ => rfl
  | scopes, name :: rest, await, inOrder => by
      obtain ⟨later, inOrder⟩ := List.pairwise_cons.mp inOrder
      have before : Mention.Before [.declaration name] (rest.map .declaration) := by
        simpa [Mention.Before, Mention.declaration] using later
      obtain ⟨reflects, await⟩ := Scopes.Await.declaration await before later
      rw [Finding.parameters, Finding.redeclaration_eq reflects, List.map_cons,
        Mention.findings_cons, Finding.parameters_eq rest await inOrder]

theorem Finding.superclass_eq_findings {scopes : Scopes} {regions : List Region}
    {name : Occurrence} {superclass : Option Occurrence}
    (await : scopes.Await regions [] (Mention.superclass name superclass)) :
    Finding.superclass scopes name superclass =
      Mention.findings regions (Mention.superclass name superclass) := by
  cases superclass with
  | none => rfl
  | some word =>
      rw [Finding.superclass_eq await.sees.head.1 await.complete.initializes]
      exact (List.append_nil _).symm

mutual

theorem Stmt.findings_perm {regions : List Region} {scopes : Scopes} :
    ∀ statement : Stmt,
      scopes.Await regions statement.declared?.toList statement.mentions →
        statement.InOrder →
          (statement.findings (Region.surroundings regions) scopes).Perm
            ((statement.sites regions).flatMap Site.findings)
  | .block statements, await, inOrder =>
      have inside := await.nest (.block statements) rfl fun _ member =>
        Stmt.declarations_subset statements (List.mem_map_of_mem member)
      Stmt.findingsOfAll_perm statements inside inOrder
  | .classDecl name superclass methods, await, ⟨before, inOrder⟩ => by
      obtain ⟨reflects, await⟩ := await.declaration before (List.forall_mem_nil _)
      have inside := Routine.findingsOfMethods_perm methods
        (await.right.insideClass superclass) inOrder
      rw [Region.surroundings_ofClass] at inside
      rw [Stmt.findings, Stmt.sites, Finding.redeclaration_eq reflects,
        Finding.superclass_eq_findings await.left, List.flatMap_cons, List.flatMap_append,
        List.append_assoc]
      exact .append_left _ (.append_left _ inside)
  | .expression inner, await, _ | .print inner, await, _ =>
      Expr.found_findings await.unreserved await.complete.initializes inner await.sees
  | .function routine, await, ⟨before, inOrder⟩ => by
      obtain ⟨reflects, await⟩ := await.declaration before (List.forall_mem_nil _)
      rw [Stmt.findings, Stmt.sites, Finding.redeclaration_eq reflects, List.flatMap_cons]
      exact .append_left _ (Routine.findings_perm .function routine await inOrder)
  | .ifThen condition thenBranch none, await, ⟨undeclared, inOrder⟩ => by
      have first := Expr.found_findings await.unreserved await.complete.initializes
        condition await.left.sees
      have then_ := Stmt.findings_perm thenBranch (by rw [undeclared]; exact await.right)
        inOrder
      rw [Stmt.sites, List.flatMap_append]
      exact first.append then_
  | .ifThen condition thenBranch (some elseBranch), await,
      ⟨⟨undeclared, inOrder⟩, undeclared', inOrder'⟩ => by
      have first := Expr.found_findings await.unreserved await.complete.initializes
        condition await.left.sees
      have then_ := Stmt.findings_perm thenBranch
        (by rw [undeclared]; exact await.right.left) inOrder
      have else_ := Stmt.findings_perm elseBranch
        (by rw [undeclared']; exact await.right.right) inOrder'
      rw [Stmt.sites, Stmt.findings, List.flatMap_append, List.flatMap_append,
        List.append_assoc]
      exact first.append (then_.append else_)
  | .returns keyword value, await, _ => by
      have value := Expr.found_findingsOfOption await.unreserved
        await.complete.initializes value
        (await.subset (List.subset_cons_self _ _)).sees
      rw [Stmt.findings, Stmt.sites, Surroundings.returnUse_eq, List.flatMap_cons]
      exact .append_left _ value
  | .var name initializer, await, before => by
      have initializes := await.complete.initializes_declare name
      obtain ⟨reflects, await⟩ := await.declaration before (List.forall_mem_nil _)
      have sees : (scopes.declare name.lexeme).Sees regions
          (Expr.mentionsOfOption (some name) initializer) :=
        ⟨fun mention member => (await.follows mention member).enter, await.proper⟩
      rw [Stmt.findings, Stmt.sites, Finding.redeclaration_eq reflects, List.flatMap_cons]
      exact .append_left _ (Expr.found_findingsOfOption await.unreserved initializes
        initializer sees)
  | .whileLoop condition body, await, ⟨undeclared, inOrder⟩ => by
      have first := Expr.found_findings await.unreserved await.complete.initializes
        condition await.left.sees
      have repeated := Stmt.findings_perm body (by rw [undeclared]; exact await.right)
        inOrder
      rw [Stmt.sites, List.flatMap_append]
      exact first.append repeated

theorem Routine.findings_perm {regions : List Region} {scopes : Scopes}
    (kind : RoutineKind) :
    ∀ routine : Routine, scopes.Await regions [] routine.mentions → routine.InOrder →
      (routine.findings (Region.surroundings (.routine kind routine :: regions))
        scopes).Perm
        ((routine.sites kind regions).flatMap Site.findings)
  | .mk name parameters body, await, ⟨parametersInOrder, before, inOrder⟩ => by
      have inside := await.nest (.routine kind (.mk name parameters body)) rfl <| by
        intro declaration member
        rcases List.mem_append.mp member with parameter | declared
        · exact List.mem_append_left _ (List.mem_map_of_mem parameter)
        · exact List.mem_append_right _
            (Stmt.declarations_subset body (List.mem_map_of_mem declared))
      have ahead := inside.left.ahead fun mention member declaration declared =>
        Nat.le_of_lt (before mention member (.declaration declaration)
          (Stmt.declarations_subset body (List.mem_map_of_mem declared)))
      have first := Finding.parameters_eq parameters ahead parametersInOrder
      have rest := Stmt.findingsOfAll_perm body (inside.right.behind before) inOrder
      rw [Routine.findings, Routine.sites, first, Scopes.nest_parameters,
        List.flatMap_append]
      exact .append_left _ rest

theorem Stmt.findingsOfAll_perm {regions : List Region} {scopes : Scopes} :
    ∀ statements : List Stmt,
      scopes.Await regions (statements.filterMap Stmt.declared?)
          (Stmt.mentionsOfAll statements) →
        Stmt.InOrderAll statements →
          (Stmt.findingsOfAll (Region.surroundings regions) scopes statements).Perm
            ((Stmt.sitesOfAll regions statements).flatMap Site.findings)
  | [], _, _ => .nil
  | statement :: rest, await, ⟨inOrder, inOrder', before, before'⟩ => by
      rw [Stmt.filterMap_declared?_cons] at await
      have first := Stmt.findings_perm statement (await.left.ahead fun mention member
        name declared => Nat.le_of_lt (before' mention member (.declaration name)
          (List.mem_map_of_mem declared))) inOrder
      have others := Stmt.findingsOfAll_perm rest (await.right.behind before) inOrder'
      rw [Stmt.findingsOfAll, Stmt.sitesOfAll, Scopes.scopesAfter_eq, List.flatMap_append]
      exact first.append others

theorem Routine.findingsOfMethods_perm {regions : List Region} {scopes : Scopes} :
    ∀ methods : List Routine,
      scopes.Await regions [] (Routine.mentionsOfMethods methods) →
        Routine.InOrderAll methods →
          (Routine.findingsOfMethods (Region.surroundings regions) scopes methods).Perm
            ((Routine.sitesOfMethods regions methods).flatMap Site.findings)
  | [], _, _ => .nil
  | method :: rest, await, ⟨inOrder, inOrder'⟩ => by
      rw [Routine.findingsOfMethods, Routine.sitesOfMethods, List.flatMap_append]
      exact (Routine.findings_perm .method method await.left inOrder).append
        (Routine.findingsOfMethods_perm rest await.right inOrder')

end

end LoxLang
