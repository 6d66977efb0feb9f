import LoxLang.Proofs.Binding.Scopes
import LoxLang.Tree.References

/-! # Programs without faults are settled

If there is no fault among the findings in a program, and the distances that they give are
recorded, then the program is settled. Each distance belongs to one reference only,
because no two references are at one place.
-/

namespace LoxLang

/-! ## What is recorded -/

def referencesAt (place : Nat) (references : List Reference) : Nat :=
  references.countP (·.occurrence.place = place)

@[simp] theorem referencesAt_append (place : Nat) (left right : List Reference) :
    referencesAt place (left ++ right) = referencesAt place left + referencesAt place right :=
  List.countP_append

/-- The findings are free of faults, and what they say is all that is recorded about the
references. -/
structure Checked (settlement : Settlement) (findings : List Finding)
    (references : List Reference) : Prop where
  faultless : ∀ fault, .fault fault ∉ findings
  bound : ∀ reference distance, .bound reference distance ∈ findings →
    settlement.distances.get? reference.place = some distance
  unbound : ∀ reference ∈ references,
    (∀ other distance, .bound other distance ∈ findings →
    other.place ≠ reference.occurrence.place) →
      settlement.distances.get? reference.occurrence.place = none
  known : ∀ reference ∈ references, reference.occurrence.place < settlement.limit
  distinct : ∀ place, referencesAt place references ≤ 1

def boundAt (place : Nat) (findings : List Finding) : Nat :=
  findings.countP fun
    | .bound reference _ => reference.place = place
    | .fault _ => false

/-- What is bound are references, and none is bound twice. -/
def BoundAmong (findings : List Finding) (references : List Reference) : Prop :=
  ∀ place, boundAt place findings ≤ referencesAt place references

theorem boundAt_pos {findings : List Finding} {reference : Occurrence} {distance : Nat}
    (member : .bound reference distance ∈ findings) :
    0 < boundAt reference.place findings :=
  List.countP_pos_iff.mpr ⟨_, member, by simp⟩

@[simp] theorem boundAt_append (place : Nat) (first second : List Finding) :
    boundAt place (first ++ second) = boundAt place first + boundAt place second :=
  List.countP_append

theorem referencesAt_pos {references : List Reference} {reference : Reference}
    (member : reference ∈ references) :
    0 < referencesAt reference.occurrence.place references :=
  List.countP_pos_iff.mpr ⟨reference, member, by simp⟩

theorem Checked.part {settlement : Settlement} {findings part rest : List Finding}
    {references partReferences restReferences : List Reference}
    (checked : Checked settlement findings references)
    (sub : ∀ finding ∈ part, finding ∈ findings)
    (cover : ∀ reference distance, .bound reference distance ∈ findings →
      .bound reference distance ∈ part ∨ .bound reference distance ∈ rest)
    (among : BoundAmong rest restReferences)
    (subReferences : ∀ reference ∈ partReferences, reference ∈ references)
    (counts : ∀ place, referencesAt place partReferences +
      referencesAt place restReferences ≤ referencesAt place references) :
    Checked settlement part partReferences where
  faultless fault member := checked.faultless fault (sub _ member)
  bound reference distance member := checked.bound reference distance (sub _ member)
  unbound := by
    intro reference member unbound
    apply checked.unbound reference (subReferences _ member)
    intro other distance found same
    rcases cover other distance found with inPart | inRest
    · exact unbound other distance inPart same
    · have first := referencesAt_pos member
      have second := boundAt_pos inRest
      have atMost := among other.place
      have one := checked.distinct reference.occurrence.place
      have sum := counts reference.occurrence.place
      rw [same] at second atMost
      omega
  known reference member := checked.known reference (subReferences _ member)
  distinct place := by
    have one := checked.distinct place
    have sum := counts place
    omega

section Append

variable {settlement : Settlement} {first second : List Finding}
  {firstReferences secondReferences : List Reference}

theorem Checked.left
    (checked : Checked settlement (first ++ second) (firstReferences ++ secondReferences))
    (among : BoundAmong second secondReferences) :
    Checked settlement first firstReferences :=
  checked.part (by simp +contextual) (fun _ _ => List.mem_append.mp) among
    (by simp +contextual) (fun place => by simp)

theorem Checked.right
    (checked : Checked settlement (first ++ second) (firstReferences ++ secondReferences))
    (among : BoundAmong first firstReferences) :
    Checked settlement second secondReferences :=
  checked.part (by simp +contextual) (fun _ _ member => (List.mem_append.mp member).symm)
    among (by simp +contextual) (fun place => by simp [Nat.add_comm])

theorem BoundAmong.nil : BoundAmong [] [] := fun _ => Nat.le_refl _

theorem BoundAmong.append (left : BoundAmong first firstReferences)
    (right : BoundAmong second secondReferences) :
    BoundAmong (first ++ second) (firstReferences ++ secondReferences) := by
  intro place
  rw [boundAt_append, referencesAt_append]
  exact Nat.add_le_add (left place) (right place)

theorem BoundAmong.comm (among : BoundAmong first (firstReferences ++ secondReferences)) :
    BoundAmong first (secondReferences ++ firstReferences) := by
  intro place
  rw [referencesAt_append, Nat.add_comm, ← referencesAt_append]
  exact among place

theorem Checked.comm
    (checked : Checked settlement first (firstReferences ++ secondReferences)) :
    Checked settlement first (secondReferences ++ firstReferences) where
  faultless := checked.faultless
  bound := checked.bound
  unbound reference member :=
    checked.unbound reference (List.mem_append.mpr (List.mem_append.mp member).symm)
  known reference member :=
    checked.known reference (List.mem_append.mpr (List.mem_append.mp member).symm)
  distinct place := by
    have one := checked.distinct place
    simp only [referencesAt_append] at one ⊢
    omega

theorem BoundAmong.fault {token : Occurrence} {cause : BindingCause} :
    BoundAmong [.ofFault token cause] [] := fun _ => Nat.le_refl _

theorem BoundAmong.faultIf {condition : Bool} {token : Occurrence}
    {cause : BindingCause} : BoundAmong (Finding.faultIf condition token cause) [] := by
  rw [Finding.faultIf]
  split
  · exact .fault
  · exact .nil

theorem BoundAmong.reference (scopes : Scopes) (kind : ReferenceKind)
    (name : Occurrence) : BoundAmong (Finding.reference scopes name) [⟨kind, name⟩] := by
  intro place
  rw [Finding.reference]
  split
  · simp [boundAt, referencesAt, List.countP_cons]
  · exact Nat.zero_le _

theorem BoundAmong.variableUse (scopes : Scopes) (name : Occurrence) :
    BoundAmong (Finding.variableUse scopes name) [⟨.variable, name⟩] :=
  BoundAmong.append .faultIf (.reference scopes _ name)

end Append

/-! ## What is found are references -/

mutual

theorem Expr.boundAmong (surroundings : Surroundings) (scopes : Scopes) :
    ∀ expression : Expr,
      BoundAmong (expression.findings surroundings scopes) expression.references
  | .assign name value =>
      ((Expr.boundAmong _ _ value).append (.reference scopes .assignment name)).comm
  | .binary left _ _ right | .logical left _ _ right =>
      (Expr.boundAmong _ _ left).append (Expr.boundAmong _ _ right)
  | .call callee _ arguments =>
      (Expr.boundAmong _ _ callee).append (Expr.boundAmong_all _ _ arguments)
  | .get object _ => Expr.boundAmong _ _ object
  | .grouping inner => Expr.boundAmong _ _ inner
  | .literal _ => .nil
  | .set object _ value =>
    ((Expr.boundAmong _ _ value).append (Expr.boundAmong _ _ object)).comm
  | .super keyword _ => by
      rw [Expr.findings, Surroundings.superUse]
      refine BoundAmong.append (show BoundAmong _ [] from ?_)
        (.reference scopes .super keyword)
      split
      · exact .fault
      · exact .fault
      · exact .nil
  | .this keyword => by
      rw [Expr.findings, Surroundings.thisUse]
      split
      · exact fun _ => Nat.zero_le _
      · exact .reference scopes .this keyword
  | .unary _ _ right => Expr.boundAmong _ _ right
  | .variable name => .variableUse scopes name

theorem Expr.boundAmong_all (surroundings : Surroundings) (scopes : Scopes) :
    ∀ expressions : List Expr,
      BoundAmong (Expr.findingsOfAll surroundings scopes expressions)
      (Expr.referencesOfAll expressions)
  | [] => .nil
  | expression :: rest =>
      (Expr.boundAmong _ _ expression).append (Expr.boundAmong_all _ _ rest)

end

theorem Expr.boundAmong_option (surroundings : Surroundings) (scopes : Scopes) :
    ∀ expression : Option Expr, BoundAmong
      (Expr.findingsOfOption surroundings scopes expression)
        (Expr.referencesOfOption expression)
  | none => .nil
  | some expression => Expr.boundAmong _ _ expression

theorem BoundAmong.superclass (scopes : Scopes) (name : Occurrence) :
    ∀ clause : Option Occurrence, BoundAmong (Finding.superclass scopes name clause)
      (clause.toList.map fun superclass => ⟨.variable, superclass⟩)
  | none => .nil
  | some superclass => BoundAmong.append .faultIf (.variableUse scopes superclass)

theorem BoundAmong.parameters :
    ∀ (scopes : Scopes) (names : List Occurrence),
      BoundAmong (Finding.parameters scopes names) []
  | _, [] => .nil
  | scopes, name :: rest =>
      BoundAmong.append .faultIf (.parameters (scopes.define name.lexeme) rest)

mutual

theorem Stmt.boundAmong (surroundings : Surroundings) (scopes : Scopes) :
    ∀ statement : Stmt, BoundAmong (statement.findings surroundings scopes)
      statement.references
  | .block statements => Stmt.boundAmong_all _ _ statements
  | .classDecl name superclass methods =>
      .append (.append .faultIf (.superclass _ name superclass))
        (Routine.boundAmong_all _ _ methods)
  | .expression inner | .print inner => Expr.boundAmong _ _ inner
  | .function routine => .append .faultIf (Routine.boundAmong _ _ routine)
  | .ifThen condition thenBranch none =>
      .append (Expr.boundAmong _ _ condition) (Stmt.boundAmong _ _ thenBranch)
  | .ifThen condition thenBranch (some elseBranch) =>
      .append (.append (Expr.boundAmong _ _ condition) (Stmt.boundAmong _ _ thenBranch))
        (Stmt.boundAmong _ _ elseBranch)
  | .returns _ value =>
      .append (.append .faultIf .faultIf) (Expr.boundAmong_option _ _ value)
  | .var _ initializer => .append .faultIf (Expr.boundAmong_option _ _ initializer)
  | .whileLoop condition body =>
    .append (Expr.boundAmong _ _ condition) (Stmt.boundAmong _ _ body)

theorem Routine.boundAmong (surroundings : Surroundings) (scopes : Scopes) :
    ∀ routine : Routine, BoundAmong (routine.findings surroundings scopes)
      routine.references
  | .mk _ parameters body =>
      .append (.parameters _ parameters) (Stmt.boundAmong_all _ _ body)

theorem Stmt.boundAmong_all (surroundings : Surroundings) (scopes : Scopes) :
    ∀ statements : List Stmt, BoundAmong
      (Stmt.findingsOfAll surroundings scopes statements)
      (Stmt.referencesOfAll statements)
  | [] => .nil
  | statement :: rest =>
    .append (Stmt.boundAmong _ _ statement) (Stmt.boundAmong_all _ _ rest)

theorem Routine.boundAmong_all (surroundings : Surroundings) (scopes : Scopes) :
    ∀ routines : List Routine, BoundAmong
      (Routine.findingsOfMethods surroundings scopes routines)
        (Routine.referencesOfAll routines)
  | [] => .nil
  | routine :: rest =>
    .append (Routine.boundAmong _ _ routine) (Routine.boundAmong_all _ _ rest)

end

/-! ## Single names -/

section Names

variable {settlement : Settlement} {scopes : Scopes} {name : Occurrence}
    {kind : ReferenceKind}

theorem Checked.not_fault {token : Occurrence} {cause : BindingCause}
    {findings : List Finding} {references : List Reference}
    (checked : Checked settlement (.ofFault token cause :: findings) references) :
    False :=
  checked.faultless ⟨token, cause⟩ (by simp [Finding.ofFault])

theorem Checked.unconditional {condition : Bool} {token : Occurrence}
    {cause : BindingCause} {references : List Reference}
    (checked : Checked settlement (Finding.faultIf condition token cause) references) :
    condition = false := by
  cases condition with
  | false => rfl
  | true => exact checked.not_fault.elim

theorem Checked.binds
    (checked : Checked settlement (Finding.reference scopes name) [⟨kind, name⟩]) :
    settlement.Binds scopes name := by
  refine ⟨checked.known ⟨kind, name⟩ (by simp), ?_⟩
  cases found : scopes.distance? name.lexeme with
  | some distance =>
    exact checked.bound name distance (by simp [Finding.reference, found])
  | none => exact checked.unbound ⟨kind, name⟩ (by simp) (by simp [Finding.reference, found])

theorem Checked.reads
    (checked : Checked settlement (Finding.variableUse scopes name) [⟨.variable, name⟩])
    (usable : scopes.Usable) : scopes.Reads settlement name := by
  have checked' : Checked settlement
      (Finding.faultIf (scopes.incompleteHere name.lexeme) name .ownInitializer ++
        Finding.reference scopes name) ([] ++ [⟨.variable, name⟩]) := checked
  have complete := (checked'.left (.reference _ _ _)).unconditional
  refine ⟨(checked'.right .faultIf).binds, fun incomplete => ?_⟩
  simp [(usable _ incomplete).1] at complete

theorem Checked.readsThis {surroundings : Surroundings} {keyword : Occurrence}
    (checked : Checked settlement (surroundings.thisUse scopes keyword)
      [⟨.this, keyword⟩])
    (regular : keyword.lexeme = "this")
    (suits : Scopes.Suits surroundings.enclosingClass scopes)
    (usable : scopes.Usable) : scopes.ReadsThis settlement keyword := by
  rw [Surroundings.thisUse] at checked
  split at checked
  case isTrue => exact checked.not_fault.elim
  case isFalse inside =>
      rcases suits.this inside with ⟨distance, found⟩
      exact ⟨regular, checked.binds, usable.reserved (by simp [reservedNames]) found⟩

theorem Checked.readsSuper {surroundings : Surroundings} {keyword : Occurrence}
    (checked : Checked settlement (surroundings.superUse scopes keyword)
      [⟨.super, keyword⟩])
    (regular : keyword.lexeme = "super")
    (suits : Scopes.Suits surroundings.enclosingClass scopes)
    (usable : scopes.Usable) : scopes.ReadsSuper settlement keyword := by
  rw [Surroundings.superUse] at checked
  split at checked
  case h_1 => exact checked.not_fault.elim
  case h_2 => exact checked.not_fault.elim
  case h_3 derived =>
      rcases suits.super derived with ⟨distance, found, found'⟩
      exact ⟨regular, checked.binds, ⟨distance, found, found'⟩,
        usable.reserved (by simp [reservedNames]) found,
        usable.reserved (by simp [reservedNames]) found'⟩

theorem Checked.admits
    (checked : Checked settlement (Finding.redeclaration scopes name) [])
    (unreserved : name.lexeme ∉ reservedNames) : scopes.Admits name :=
  ⟨unreserved, checked.unconditional⟩

theorem Checked.settledSuperclass {superclass : Option Occurrence}
    (checked : Checked settlement
      (Finding.superclass (scopes.define name.lexeme) name superclass)
      (superclass.toList.map fun superclass => ⟨.variable, superclass⟩))
    (complete : scopes.Complete) :
    scopes.SettledSuperclass settlement name superclass := by
  cases superclass with
  | none => trivial
  | some superclass =>
      have checked' : Checked settlement
          (Finding.faultIf (name.lexeme = superclass.lexeme) superclass
            .selfInheritance ++
            Finding.variableUse (scopes.define name.lexeme) superclass)
          ([] ++ [⟨.variable, superclass⟩]) := checked
      have different : name.lexeme ≠ superclass.lexeme := by
        simpa using (checked'.left (.variableUse _ _)).unconditional
      rcases (checked'.right .faultIf).reads (complete.define name.lexeme).usable with
          ⟨⟨known, binds⟩, complete'⟩
      rw [Scopes.define, Scopes.distance?_enter different] at binds
      rw [Scopes.define, Scopes.state?_enter different] at complete'
      exact ⟨different.symm, ⟨known, binds⟩, complete'⟩

theorem Checked.parameters :
    ∀ {names : List Occurrence} {scope : Scope} {outer : Scopes},
      Checked settlement (Finding.parameters (scope :: outer) names) [] →
        (names.map (·.lexeme)).Nodup ∧ ∀ name ∈ names, scope.contains name.lexeme = false
  | [], _, _, _ => by simp
  | name :: rest, scope, outer, checked => by
      have checked' : Checked settlement (Finding.redeclaration (scope :: outer) name ++
          Finding.parameters (scope.bind name.lexeme true :: outer) rest) ([] ++ []) :=
            checked
      have fresh := (checked'.left (.parameters _ _)).unconditional
      rcases Checked.parameters (checked'.right .faultIf) with ⟨distinct, others⟩
      simp only [Bindings.contains_bind, Bool.or_eq_false_iff,
        decide_eq_false_iff_not] at others
      simp only [Scopes.declaredHere, List.head?_cons, Option.any_some] at fresh
      simp only [List.map_cons, List.nodup_cons, List.mem_map, not_exists, not_and,
        List.forall_mem_cons]
      exact ⟨⟨fun other member same => (others other member).1 same.symm, distinct⟩,
        fresh,
        fun other member => (others other member).2⟩

end Names

end LoxLang
