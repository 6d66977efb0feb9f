import LoxLang.Proofs.Binding.Checked

/-! # What is checked is settled

The proof follows the walk that gives the findings. Whatever it declares on its way is
complete again behind each statement, and does not hide what classes bind.
-/

namespace LoxLang

variable {settlement : Settlement}

mutual

theorem Expr.settled_of_checked {surroundings : Surroundings} {scopes : Scopes}
    (suits : Scopes.Suits surroundings.enclosingClass scopes) (usable : scopes.Usable) :
    ∀ expression : Expr, expression.Regular →
      Checked settlement (expression.findings surroundings scopes) expression.references →
        expression.Settled settlement scopes
  | .assign name value, ⟨unreserved, regular⟩, checked => by
      have checked' : Checked settlement
          (value.findings surroundings scopes ++ Finding.reference scopes name)
          (value.references ++ [⟨.assignment, name⟩]) :=
        Checked.comm (show Checked _ _ ([⟨.assignment, name⟩] ++
          value.references) from checked)
      exact ⟨Expr.settled_of_checked suits usable value regular
        (checked'.left (.reference _ _ _)),
        (checked'.right (Expr.boundAmong _ _ value)).binds, unreserved⟩
  | .binary left _ _ right, ⟨regular, regular'⟩, checked
  | .logical left _ _ right, ⟨regular, regular'⟩, checked =>
      ⟨Expr.settled_of_checked suits usable left regular
        (checked.left (Expr.boundAmong _ _ right)),
        Expr.settled_of_checked suits usable right regular'
          (checked.right (Expr.boundAmong _ _ left))⟩
  | .call callee _ arguments, ⟨regular, regular'⟩, checked =>
      ⟨Expr.settled_of_checked suits usable callee regular
          (checked.left (Expr.boundAmong_all _ _ arguments)),
        Expr.settledAll_of_checked suits usable arguments regular'
          (checked.right (Expr.boundAmong _ _ callee))⟩
  | .get object _, regular, checked =>
    Expr.settled_of_checked suits usable object regular checked
  | .grouping inner, regular, checked =>
    Expr.settled_of_checked suits usable inner regular checked
  | .literal _, _, _ => trivial
  | .set object _ value, ⟨regular, regular'⟩, checked => by
      have checked' : Checked settlement
          (value.findings surroundings scopes ++ object.findings surroundings scopes)
          (value.references ++ object.references) :=
        Checked.comm (show Checked _ _ (object.references ++
          value.references) from checked)
      exact ⟨Expr.settled_of_checked suits usable object regular
          (checked'.right (Expr.boundAmong _ _ value)),
        Expr.settled_of_checked suits usable value regular'
          (checked'.left (Expr.boundAmong _ _ object))⟩
  | .super _ _, regular, checked => checked.readsSuper regular suits usable
  | .this _, regular, checked => checked.readsThis regular suits usable
  | .unary _ _ right, regular, checked =>
    Expr.settled_of_checked suits usable right regular checked
  | .variable _, _, checked => checked.reads usable

theorem Expr.settledAll_of_checked {surroundings : Surroundings} {scopes : Scopes}
    (suits : Scopes.Suits surroundings.enclosingClass scopes) (usable : scopes.Usable) :
    ∀ expressions : List Expr, Expr.RegularAll expressions →
      Checked settlement (Expr.findingsOfAll surroundings scopes expressions)
        (Expr.referencesOfAll expressions) → Expr.SettledAll settlement scopes expressions
  | [], _, _ => trivial
  | expression :: rest, ⟨regular, regular'⟩, checked =>
      ⟨Expr.settled_of_checked suits usable expression regular
          (checked.left (Expr.boundAmong_all _ _ rest)),
        Expr.settledAll_of_checked suits usable rest regular'
          (checked.right (Expr.boundAmong _ _ expression))⟩

end

theorem Expr.settledOption_of_checked {surroundings : Surroundings} {scopes : Scopes}
    (suits : Scopes.Suits surroundings.enclosingClass scopes) (usable : scopes.Usable) :
    ∀ expression : Option Expr, Expr.RegularOption expression →
      Checked settlement (Expr.findingsOfOption surroundings scopes expression)
        (Expr.referencesOfOption expression) →
          Expr.SettledOption settlement scopes expression
  | none, _, _ => trivial
  | some expression, regular, checked =>
    Expr.settled_of_checked suits usable expression regular checked

theorem Stmt.unreserved_of_regular {statement : Stmt} (regular : statement.Regular) :
    ∀ name ∈ statement.declared?, name.lexeme ∉ reservedNames := by
  intro name declared
  cases statement with
  | classDecl | var =>
      rcases Option.some.inj declared with rfl
      exact regular.1
  | function routine =>
      rcases routine with ⟨_, _, _⟩
      rcases Option.some.inj declared with rfl
      exact regular.1.1
  | _ => cases declared

mutual

theorem Stmt.settled_of_checked {surroundings : Surroundings} {scopes : Scopes}
    (suits : Scopes.Suits surroundings.enclosingClass scopes)
    (complete : scopes.Complete) :
    ∀ statement : Stmt, statement.Regular →
      Checked settlement (statement.findings surroundings scopes) statement.references →
        statement.Settled settlement scopes
  | .block statements, regular, checked =>
      Stmt.settledAll_of_checked (suits.nest (by simp)) (complete.nest []) statements
        regular checked
  | .classDecl name superclass methods, ⟨unreserved, regular⟩, checked => by
      have checked' : Checked settlement ((Finding.redeclaration scopes name ++
          Finding.superclass (scopes.define name.lexeme) name superclass) ++
            Routine.findingsOfMethods (surroundings.insideClass superclass)
              ((scopes.define name.lexeme).insideClass superclass) methods)
          (([] ++ superclass.toList.map fun superclass => ⟨.variable, superclass⟩) ++
            Routine.referencesOfAll methods) := checked
      have clause := checked'.left (Routine.boundAmong_all _ _ methods)
      refine ⟨(clause.left (.superclass _ _ _)).admits unreserved,
        (clause.right .faultIf).settledSuperclass complete, ?_⟩
      exact Routine.settledAll_of_checked (Scopes.suits_insideClass surroundings _
        superclass) ((complete.define _).insideClass superclass) methods regular
        (checked'.right (.append .faultIf (.superclass _ _ _)))
  | .expression inner, regular, checked | .print inner, regular, checked =>
      Expr.settled_of_checked suits complete.usable inner regular checked
  | .function (.mk name parameters body), regular, checked => by
      have checked' : Checked settlement (Finding.redeclaration scopes name ++
          (Routine.mk name parameters body).findings
            { surroundings with routine := .function }
            (scopes.define name.lexeme)) ([] ++
              (Routine.mk name parameters body).references) :=
        checked
      exact ⟨(checked'.left (Routine.boundAmong _ _ _)).admits regular.1.1,
        Routine.settled_of_checked { surroundings with routine := .function }
          (suits.enter regular.1.1) (complete.define _) _ regular
          (checked'.right .faultIf)⟩
  | .ifThen condition thenBranch none, ⟨regular, undeclared, regular'⟩, checked =>
      ⟨Expr.settled_of_checked suits complete.usable condition regular
          (checked.left (Stmt.boundAmong _ _ thenBranch)), undeclared,
        Stmt.settled_of_checked suits complete thenBranch regular'
          (checked.right (Expr.boundAmong _ _ condition))⟩
  | .ifThen condition thenBranch (some elseBranch),
      ⟨regular, ⟨undeclared, regular'⟩, undeclared', regular''⟩, checked => by
      have checked' : Checked settlement ((condition.findings surroundings scopes ++
          thenBranch.findings surroundings scopes) ++
            elseBranch.findings surroundings scopes)
          ((condition.references ++ thenBranch.references) ++ elseBranch.references) :=
            checked
      have first := checked'.left (Stmt.boundAmong _ _ elseBranch)
      exact ⟨Expr.settled_of_checked suits complete.usable condition regular
          (first.left (Stmt.boundAmong _ _ thenBranch)),
        ⟨undeclared, Stmt.settled_of_checked suits complete thenBranch regular'
          (first.right (Expr.boundAmong _ _ condition))⟩, undeclared',
        Stmt.settled_of_checked suits complete elseBranch regular''
          (checked'.right (.append (Expr.boundAmong _ _ condition)
            (Stmt.boundAmong _ _ thenBranch)))⟩
  | .returns keyword value, regular, checked => by
      have checked' : Checked settlement (surroundings.returnUse keyword value.isSome ++
          Expr.findingsOfOption surroundings scopes value)
          (([] ++ []) ++ Expr.referencesOfOption value) := checked
      exact Expr.settledOption_of_checked suits complete.usable value regular
        (checked'.right (.append .faultIf .faultIf))
  | .var name initializer, ⟨unreserved, regular⟩, checked => by
      have checked' : Checked settlement (Finding.redeclaration scopes name ++
          Expr.findingsOfOption surroundings (scopes.declare name.lexeme) initializer)
          ([] ++ Expr.referencesOfOption initializer) := checked
      exact ⟨(checked'.left (Expr.boundAmong_option _ _ initializer)).admits unreserved,
        Expr.settledOption_of_checked (suits.enter unreserved)
          (complete.declare unreserved) initializer regular (checked'.right .faultIf)⟩
  | .whileLoop condition body, ⟨regular, undeclared, regular'⟩, checked =>
      ⟨Expr.settled_of_checked suits complete.usable condition regular
          (checked.left (Stmt.boundAmong _ _ body)), undeclared,
        Stmt.settled_of_checked suits complete body regular'
          (checked.right (Expr.boundAmong _ _ condition))⟩

theorem Routine.settled_of_checked (surroundings : Surroundings) {scopes : Scopes}
    (suits : Scopes.Suits surroundings.enclosingClass scopes)
    (complete : scopes.Complete) :
    ∀ routine : Routine, routine.Regular →
      Checked settlement (routine.findings surroundings scopes) routine.references →
        routine.Settled settlement scopes
  | .mk name parameters body, ⟨⟨_, unreserved⟩, regular⟩, checked => by
      have checked' : Checked settlement
          (Finding.parameters (scopes.nest []) parameters ++
            Stmt.findingsOfAll surroundings (scopes.nest (parameters.map (·.lexeme))) body)
          ([] ++ Stmt.referencesOfAll body) := checked
      have unreserved' : ∀ name ∈ parameters.map (·.lexeme), name ∉ reservedNames := by
        simpa using unreserved
      exact ⟨⟨(Checked.parameters (checked'.left (Stmt.boundAmong_all _ _ body))).1,
        unreserved⟩,
        Stmt.settledAll_of_checked (suits.nest unreserved') (complete.nest _) body regular
          (checked'.right (.parameters _ _))⟩

theorem Stmt.settledAll_of_checked {surroundings : Surroundings} {scopes : Scopes}
    (suits : Scopes.Suits surroundings.enclosingClass scopes)
    (complete : scopes.Complete) :
    ∀ statements : List Stmt, Stmt.RegularAll statements →
      Checked settlement (Stmt.findingsOfAll surroundings scopes statements)
        (Stmt.referencesOfAll statements) → Stmt.SettledAll settlement scopes statements
  | [], _, _ => trivial
  | statement :: rest, ⟨regular, regular'⟩, checked =>
      ⟨Stmt.settled_of_checked suits complete statement regular
          (checked.left (Stmt.boundAmong_all _ _ rest)),
        Stmt.settledAll_of_checked (suits.scopesAfter
          (Stmt.unreserved_of_regular regular))
          (complete.scopesAfter statement) rest regular'
          (checked.right (Stmt.boundAmong _ _ statement))⟩

theorem Routine.settledAll_of_checked {surroundings : Surroundings} {scopes : Scopes}
    (suits : Scopes.Suits surroundings.enclosingClass scopes)
    (complete : scopes.Complete) :
    ∀ routines : List Routine, Routine.RegularAll routines →
      Checked settlement (Routine.findingsOfMethods surroundings scopes routines)
        (Routine.referencesOfAll routines) → Routine.SettledAll settlement scopes routines
  | [], _, _ => trivial
  | routine :: rest, ⟨regular, regular'⟩, checked =>
      ⟨Routine.settled_of_checked (surroundings.insideMethod routine) suits complete
        routine regular
          (checked.left (Routine.boundAmong_all _ _ rest)),
        Routine.settledAll_of_checked suits complete rest regular'
          (checked.right (Routine.boundAmong _ _ routine))⟩

end

end LoxLang
