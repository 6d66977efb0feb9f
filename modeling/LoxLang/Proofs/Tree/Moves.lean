import LoxLang.Proofs.Binding.Scopes
import LoxLang.Tree.References

/-! # Moving the words of a program

The words of a program may be moved to other places and lines while they stay the same
words. Nothing but the reports about a program and the recorded distances depends on where
its words are.
-/

namespace LoxLang

structure SameWords (move : Occurrence → Occurrence) : Prop where
  kind : ∀ word, (move word).kind = word.kind
  lexeme : ∀ word, (move word).lexeme = word.lexeme
  literal : ∀ word, (move word).literal = word.literal

/-! ## Trees with their words moved -/

section Trees

variable (move : Occurrence → Occurrence)

mutual

def Expr.map : Expr → Expr
  | .assign name value => .assign (move name) value.map
  | .binary left operator word right => .binary left.map operator (move word) right.map
  | .call callee paren arguments => .call callee.map (move paren) (Expr.mapAll arguments)
  | .get object name => .get object.map (move name)
  | .grouping inner => .grouping inner.map
  | .literal value => .literal value
  | .logical left operator word right => .logical left.map operator (move word) right.map
  | .set object name value => .set object.map (move name) value.map
  | .super keyword method => .super (move keyword) (move method)
  | .this keyword => .this (move keyword)
  | .unary operator word right => .unary operator (move word) right.map
  | .variable name => .variable (move name)

def Expr.mapAll : List Expr → List Expr
  | [] => []
  | expression :: rest => expression.map :: Expr.mapAll rest

end

mutual

def Stmt.map : Stmt → Stmt
  | .block statements => .block (Stmt.mapAll statements)
  | .classDecl name superclass methods =>
    .classDecl (move name) (superclass.map move) (Routine.mapAll methods)
  | .expression inner => .expression (inner.map move)
  | .function routine => .function routine.map
  | .ifThen condition thenBranch none => .ifThen (condition.map move) thenBranch.map none
  | .ifThen condition thenBranch (some elseBranch) =>
    .ifThen (condition.map move) thenBranch.map (some elseBranch.map)
  | .print inner => .print (inner.map move)
  | .returns keyword value => .returns (move keyword) (value.map (Expr.map move))
  | .var name initializer => .var (move name) (initializer.map (Expr.map move))
  | .whileLoop condition body => .whileLoop (condition.map move) body.map

def Routine.map : Routine → Routine
  | .mk name parameters body => .mk (move name) (parameters.map move) (Stmt.mapAll body)

def Stmt.mapAll : List Stmt → List Stmt
  | [] => []
  | statement :: rest => statement.map :: Stmt.mapAll rest

def Routine.mapAll : List Routine → List Routine
  | [] => []
  | routine :: rest => routine.map :: Routine.mapAll rest

end

@[simp] theorem Routine.name_map (routine : Routine) :
    (routine.map move).name = move routine.name := by
  rcases routine with ⟨_, _, _⟩
  rfl

@[simp] theorem Routine.parameters_map (routine : Routine) :
    (routine.map move).parameters = routine.parameters.map move := by
  rcases routine with ⟨_, _, _⟩
  rfl

@[simp] theorem Routine.body_map (routine : Routine) :
    (routine.map move).body = Stmt.mapAll move routine.body := by
  rcases routine with ⟨_, _, _⟩
  rfl

end Trees

/-! ## What is found in them -/

def Finding.map (move : Occurrence → Occurrence) : Finding → Finding
  | .bound reference distance => .bound (move reference) distance
  | .fault found => .fault ⟨move found.token, found.cause⟩

section Findings

variable {move : Occurrence → Occurrence}

theorem Finding.faultless_map (findings : List Finding) :
    (∀ fault, .fault fault ∉ findings.map (Finding.map move)) ↔
      ∀ fault, .fault fault ∉ findings := by
  constructor
  · intro none fault member
    exact none _ (List.mem_map.mpr ⟨_, member, rfl⟩)
  · intro none fault member
    rcases List.mem_map.mp member with ⟨finding, member, same⟩
    cases finding with
    | bound => cases same
    | fault found => exact none found member

theorem Finding.faultIf_map (condition : Bool) (token : Occurrence)
    (cause : BindingCause) :
    Finding.faultIf condition (move token) cause =
      (Finding.faultIf condition token cause).map (Finding.map move) := by
  cases condition <;> rfl

theorem Surroundings.returnUse_map (surroundings : Surroundings) (keyword : Occurrence)
    (withValue : Bool) :
    surroundings.returnUse (move keyword) withValue =
      (surroundings.returnUse keyword withValue).map (Finding.map move) := by
  rw [Surroundings.returnUse, Surroundings.returnUse, Finding.faultIf_map,
    Finding.faultIf_map, List.map_append]

theorem Scopes.insideClass_map (scopes : Scopes) (superclass : Option Occurrence) :
    scopes.insideClass (superclass.map move) = scopes.insideClass superclass := by
  cases superclass <;> rfl

theorem Surroundings.insideClass_map (surroundings : Surroundings)
    (superclass : Option Occurrence) :
    surroundings.insideClass (superclass.map move) =
      surroundings.insideClass superclass := by
  cases superclass <;> rfl

variable (same : SameWords move)

include same

theorem Finding.reference_map (scopes : Scopes) (name : Occurrence) :
    Finding.reference scopes (move name) =
      (Finding.reference scopes name).map (Finding.map move) := by
  unfold Finding.reference
  rw [same.lexeme]
  split <;> rfl

theorem Finding.variableUse_map (scopes : Scopes) (name : Occurrence) :
    Finding.variableUse scopes (move name) =
      (Finding.variableUse scopes name).map (Finding.map move) := by
  rw [Finding.variableUse, Finding.variableUse, List.map_append,
    ← Finding.reference_map same, ← Finding.faultIf_map, same.lexeme]

theorem Finding.redeclaration_map (scopes : Scopes) (name : Occurrence) :
    Finding.redeclaration scopes (move name) =
      (Finding.redeclaration scopes name).map (Finding.map move) := by
  rw [Finding.redeclaration, Finding.redeclaration, ← Finding.faultIf_map, same.lexeme]

theorem Finding.parameters_map (scopes : Scopes) (names : List Occurrence) :
    Finding.parameters scopes (names.map move) =
      (Finding.parameters scopes names).map (Finding.map move) := by
  induction names generalizing scopes with
  | nil => rfl
  | cons name rest induction =>
      rw [List.map_cons, Finding.parameters, Finding.parameters, induction,
        Finding.redeclaration_map same, same.lexeme, List.map_append]

theorem Finding.superclass_map (scopes : Scopes) (name : Occurrence)
    (clause : Option Occurrence) :
    Finding.superclass scopes (move name) (clause.map move) =
      (Finding.superclass scopes name clause).map (Finding.map move) := by
  cases clause with
  | none => rfl
  | some superclass =>
      simp only [Option.map_some, Finding.superclass, List.map_append, same.lexeme]
      rw [Finding.variableUse_map same, Finding.faultIf_map]

theorem Surroundings.thisUse_map (surroundings : Surroundings) (scopes : Scopes)
    (keyword : Occurrence) :
    surroundings.thisUse scopes (move keyword) =
      (surroundings.thisUse scopes keyword).map (Finding.map move) := by
  unfold Surroundings.thisUse
  split
  · rfl
  · exact Finding.reference_map same scopes keyword

theorem Surroundings.superUse_map (surroundings : Surroundings) (scopes : Scopes)
    (keyword : Occurrence) :
    surroundings.superUse scopes (move keyword) =
      (surroundings.superUse scopes keyword).map (Finding.map move) := by
  unfold Surroundings.superUse
  rw [Finding.reference_map same, List.map_append]
  split <;> rfl

@[simp] theorem Routine.isNamedInit_map (routine : Routine) :
    (routine.map move).isNamedInit = routine.isNamedInit := by
  rw [Routine.isNamedInit, Routine.name_map, same.lexeme, Routine.isNamedInit]

theorem Surroundings.insideMethod_map (surroundings : Surroundings) (method : Routine) :
    surroundings.insideMethod (method.map move) = surroundings.insideMethod method := by
  rw [Surroundings.insideMethod, Surroundings.insideMethod, Routine.isNamedInit_map same]

theorem Stmt.scopesAfter_map (scopes : Scopes) (statement : Stmt) :
    (statement.map move).scopesAfter scopes = statement.scopesAfter scopes := by
  cases statement with
  | ifThen condition thenBranch elseBranch => cases elseBranch <;> rfl
  | classDecl | var => simp only [Stmt.map, Stmt.scopesAfter, Stmt.declared?, same.lexeme]
  | function routine =>
      simp only [Stmt.map, Stmt.scopesAfter, Stmt.declared?, Routine.name_map,
        same.lexeme]
  | _ => rfl

theorem map_lexemes (names : List Occurrence) :
    (names.map move).map (·.lexeme) = names.map (·.lexeme) := by
  simp [same.lexeme]

end Findings

mutual

theorem Expr.findings_map {move : Occurrence → Occurrence} (same : SameWords move)
    (surroundings : Surroundings) (scopes : Scopes) :
    ∀ expression : Expr, (expression.map move).findings surroundings scopes =
      (expression.findings surroundings scopes).map (Finding.map move)
  | .assign name value => by
      simp only [Expr.map, Expr.findings, List.map_append, Finding.reference_map same,
        Expr.findings_map same _ _ value]
  | .binary left _ _ right | .logical left _ _ right => by
      simp only [Expr.map, Expr.findings, List.map_append,
        Expr.findings_map same _ _ left, Expr.findings_map same _ _ right]
  | .call callee _ arguments => by
      simp only [Expr.map, Expr.findings, List.map_append,
        Expr.findings_map same _ _ callee, Expr.findings_mapAll same _ _ arguments]
  | .get object _ => Expr.findings_map same _ _ object
  | .grouping inner => Expr.findings_map same _ _ inner
  | .literal _ => rfl
  | .set object _ value => by
      simp only [Expr.map, Expr.findings, List.map_append,
        Expr.findings_map same _ _ object, Expr.findings_map same _ _ value]
  | .super keyword _ => Surroundings.superUse_map same _ _ keyword
  | .this keyword => Surroundings.thisUse_map same _ _ keyword
  | .unary _ _ right => Expr.findings_map same _ _ right
  | .variable name => Finding.variableUse_map same _ name

theorem Expr.findings_mapAll {move : Occurrence → Occurrence} (same : SameWords move)
    (surroundings : Surroundings) (scopes : Scopes) :
    ∀ expressions : List Expr,
      Expr.findingsOfAll surroundings scopes (Expr.mapAll move expressions) =
        (Expr.findingsOfAll surroundings scopes expressions).map (Finding.map move)
  | [] => rfl
  | expression :: rest => by
      simp only [Expr.mapAll, Expr.findingsOfAll, List.map_append,
        Expr.findings_map same _ _ expression, Expr.findings_mapAll same _ _ rest]

end

theorem Expr.findings_mapOption {move : Occurrence → Occurrence} (same : SameWords move)
    (surroundings : Surroundings) (scopes : Scopes) (expression : Option Expr) :
    Expr.findingsOfOption surroundings scopes (expression.map (Expr.map move)) =
      (Expr.findingsOfOption surroundings scopes expression).map (Finding.map move) := by
  cases expression with
  | none => rfl
  | some expression => exact Expr.findings_map same _ _ expression

mutual

theorem Stmt.findings_map {move : Occurrence → Occurrence} (same : SameWords move)
    (surroundings : Surroundings) (scopes : Scopes) :
    ∀ statement : Stmt, (statement.map move).findings surroundings scopes =
      (statement.findings surroundings scopes).map (Finding.map move)
  | .block statements => Stmt.findings_mapAll same _ _ statements
  | .classDecl name superclass methods => by
      simp only [Stmt.map, Stmt.findings, List.map_append, Finding.redeclaration_map same,
        Finding.superclass_map same, Scopes.insideClass_map, Surroundings.insideClass_map,
        same.lexeme, Routine.findings_mapAll same _ _ methods]
  | .expression inner | .print inner => Expr.findings_map same _ _ inner
  | .function routine => by
      simp only [Stmt.map, Stmt.findings, List.map_append, Finding.redeclaration_map same,
        Routine.name_map, same.lexeme, Routine.findings_map same _ _ routine]
  | .ifThen condition thenBranch none => by
      simp only [Stmt.map, Stmt.findings, List.map_append,
        Expr.findings_map same _ _ condition, Stmt.findings_map same _ _ thenBranch]
  | .ifThen condition thenBranch (some elseBranch) => by
      simp only [Stmt.map, Stmt.findings, List.map_append,
        Expr.findings_map same _ _ condition,
        Stmt.findings_map same _ _ thenBranch, Stmt.findings_map same _ _ elseBranch]
  | .returns keyword value => by
      simp only [Stmt.map, Stmt.findings, List.map_append, Surroundings.returnUse_map,
        Option.isSome_map, Expr.findings_mapOption same]
  | .var name initializer => by
      simp only [Stmt.map, Stmt.findings, List.map_append, Finding.redeclaration_map same,
        same.lexeme, Expr.findings_mapOption same]
  | .whileLoop condition body => by
      simp only [Stmt.map, Stmt.findings, List.map_append,
        Expr.findings_map same _ _ condition, Stmt.findings_map same _ _ body]

theorem Routine.findings_map {move : Occurrence → Occurrence} (same : SameWords move)
    (surroundings : Surroundings) (scopes : Scopes) :
    ∀ routine : Routine, (routine.map move).findings surroundings scopes =
      (routine.findings surroundings scopes).map (Finding.map move)
  | .mk _ parameters body => by
      simp only [Routine.map, Routine.findings, List.map_append,
        Finding.parameters_map same, map_lexemes same, Stmt.findings_mapAll same _ _ body]

theorem Stmt.findings_mapAll {move : Occurrence → Occurrence} (same : SameWords move)
    (surroundings : Surroundings) (scopes : Scopes) :
    ∀ statements : List Stmt,
      Stmt.findingsOfAll surroundings scopes (Stmt.mapAll move statements) =
        (Stmt.findingsOfAll surroundings scopes statements).map (Finding.map move)
  | [] => rfl
  | statement :: rest => by
      simp only [Stmt.mapAll, Stmt.findingsOfAll, List.map_append,
        Stmt.scopesAfter_map same,
        Stmt.findings_map same _ _ statement, Stmt.findings_mapAll same _ _ rest]

theorem Routine.findings_mapAll {move : Occurrence → Occurrence} (same : SameWords move)
    (surroundings : Surroundings) (scopes : Scopes) :
    ∀ routines : List Routine,
      Routine.findingsOfMethods surroundings scopes (Routine.mapAll move routines) =
        (Routine.findingsOfMethods surroundings scopes routines).map (Finding.map move)
  | [] => rfl
  | routine :: rest => by
      simp only [Routine.mapAll, Routine.findingsOfMethods, List.map_append,
        Surroundings.insideMethod_map same, Routine.findings_map same _ _ routine,
        Routine.findings_mapAll same _ _ rest]

end

end LoxLang
