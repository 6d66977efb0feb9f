import LoxLang.Proofs.Tree.Moves

/-! # Moving words one after the other

Words that are moved twice are moved once to where they are in the end. And a tree that
one move leaves as it is, is left so by every move that leaves the same words alone.
-/

namespace LoxLang

section Twice

variable (first second : Occurrence → Occurrence)

mutual

theorem Expr.map_map :
    ∀ expression : Expr, (expression.map first).map second =
      expression.map (second ∘ first)
  | .assign _ value => by simp only [Expr.map, Function.comp, Expr.map_map value]
  | .binary left _ _ right | .logical left _ _ right => by
      simp only [Expr.map, Function.comp, Expr.map_map left, Expr.map_map right]
  | .call callee _ arguments => by
      simp only [Expr.map, Function.comp, Expr.map_map callee,
        Expr.mapAll_mapAll arguments]
  | .get object _ => by simp only [Expr.map, Function.comp, Expr.map_map object]
  | .grouping inner => by simp only [Expr.map, Expr.map_map inner]
  | .set object _ value => by
      simp only [Expr.map, Function.comp, Expr.map_map object, Expr.map_map value]
  | .unary _ _ right => by simp only [Expr.map, Function.comp, Expr.map_map right]
  | .literal _ | .super _ _ | .this _ | .variable _ => rfl

theorem Expr.mapAll_mapAll :
    ∀ expressions : List Expr, Expr.mapAll second (Expr.mapAll first expressions) =
      Expr.mapAll (second ∘ first) expressions
  | [] => rfl
  | expression :: rest => by
      simp only [Expr.mapAll, Expr.map_map expression, Expr.mapAll_mapAll rest]

end

theorem Expr.mapOption_mapOption (expression : Option Expr) :
    (expression.map (Expr.map first)).map (Expr.map second) =
      expression.map (Expr.map (second ∘ first)) := by
  cases expression with
  | none => rfl
  | some expression => exact congrArg some (Expr.map_map first second expression)

mutual

theorem Stmt.map_map :
    ∀ statement : Stmt, (statement.map first).map second =
      statement.map (second ∘ first)
  | .block statements => by simp only [Stmt.map, Stmt.mapAll_mapAll statements]
  | .classDecl _ _ methods => by
      simp only [Stmt.map, Option.map_map, Function.comp, Routine.mapAll_mapAll methods]
  | .expression inner | .print inner => by
      simp only [Stmt.map, Expr.map_map first second inner]
  | .function routine => by simp only [Stmt.map, Routine.map_map routine]
  | .ifThen condition thenBranch none => by
      simp only [Stmt.map, Expr.map_map first second condition, Stmt.map_map thenBranch]
  | .ifThen condition thenBranch (some elseBranch) => by
      simp only [Stmt.map, Expr.map_map first second condition, Stmt.map_map thenBranch,
        Stmt.map_map elseBranch]
  | .returns _ value | .var _ value => by
      simp only [Stmt.map, Function.comp, Expr.mapOption_mapOption first second value]
  | .whileLoop condition body => by
      simp only [Stmt.map, Expr.map_map first second condition, Stmt.map_map body]

theorem Routine.map_map :
    ∀ routine : Routine, (routine.map first).map second = routine.map (second ∘ first)
  | .mk _ _ body => by
      simp only [Routine.map, List.map_map, Function.comp_apply, Stmt.mapAll_mapAll body]

theorem Stmt.mapAll_mapAll :
    ∀ statements : List Stmt, Stmt.mapAll second (Stmt.mapAll first statements) =
      Stmt.mapAll (second ∘ first) statements
  | [] => rfl
  | statement :: rest => by
      simp only [Stmt.mapAll, Stmt.map_map statement, Stmt.mapAll_mapAll rest]

theorem Routine.mapAll_mapAll :
    ∀ routines : List Routine, Routine.mapAll second (Routine.mapAll first routines) =
      Routine.mapAll (second ∘ first) routines
  | [] => rfl
  | routine :: rest => by
      simp only [Routine.mapAll, Routine.map_map routine, Routine.mapAll_mapAll rest]

end

theorem Finding.map_map (finding : Finding) :
    (finding.map first).map second = finding.map (second ∘ first) := by
  cases finding <;> rfl

end Twice

section Fixed

variable {move other : Occurrence → Occurrence}

def Spares (move other : Occurrence → Occurrence) : Prop :=
  ∀ word, move word = word → other word = word

theorem Occurrence.mapOption_of_fixed (spares : Spares move other)
    {word : Option Occurrence} (fixed : word.map move = word) : word.map other = word := by
  cases word with
  | none => rfl
  | some word => exact congrArg some (spares word (Option.some.inj fixed))

theorem Occurrence.mapList_of_fixed (spares : Spares move other)
    {words : List Occurrence} (fixed : words.map move = words) :
    words.map other = words := by
  induction words with
  | nil => rfl
  | cons word rest induction =>
      obtain ⟨first, later⟩ := List.cons.inj fixed
      rw [List.map_cons, spares word first, induction later]

mutual

theorem Expr.map_of_fixed (spares : Spares move other) :
    ∀ {expression : Expr}, expression.map move = expression →
      expression.map other = expression
  | .assign _ _, fixed => by
      simp only [Expr.map, Expr.assign.injEq] at fixed ⊢
      exact ⟨spares _ fixed.1, Expr.map_of_fixed spares fixed.2⟩
  | .binary _ _ _ _, fixed => by
      simp only [Expr.map, Expr.binary.injEq, true_and] at fixed ⊢
      exact ⟨Expr.map_of_fixed spares fixed.1, spares _ fixed.2.1,
        Expr.map_of_fixed spares fixed.2.2⟩
  | .logical _ _ _ _, fixed => by
      simp only [Expr.map, Expr.logical.injEq, true_and] at fixed ⊢
      exact ⟨Expr.map_of_fixed spares fixed.1, spares _ fixed.2.1,
        Expr.map_of_fixed spares fixed.2.2⟩
  | .call _ _ _, fixed => by
      simp only [Expr.map, Expr.call.injEq] at fixed ⊢
      exact ⟨Expr.map_of_fixed spares fixed.1, spares _ fixed.2.1,
        Expr.mapAll_of_fixed spares fixed.2.2⟩
  | .get _ _, fixed => by
      simp only [Expr.map, Expr.get.injEq] at fixed ⊢
      exact ⟨Expr.map_of_fixed spares fixed.1, spares _ fixed.2⟩
  | .grouping _, fixed => by
      simp only [Expr.map, Expr.grouping.injEq] at fixed ⊢
      exact Expr.map_of_fixed spares fixed
  | .set _ _ _, fixed => by
      simp only [Expr.map, Expr.set.injEq] at fixed ⊢
      exact ⟨Expr.map_of_fixed spares fixed.1, spares _ fixed.2.1,
        Expr.map_of_fixed spares fixed.2.2⟩
  | .super _ _, fixed => by
      simp only [Expr.map, Expr.super.injEq] at fixed ⊢
      exact ⟨spares _ fixed.1, spares _ fixed.2⟩
  | .unary _ _ _, fixed => by
      simp only [Expr.map, Expr.unary.injEq, true_and] at fixed ⊢
      exact ⟨spares _ fixed.1, Expr.map_of_fixed spares fixed.2⟩
  | .this _, fixed => congrArg Expr.this (spares _ (Expr.this.inj fixed))
  | .variable _, fixed => congrArg Expr.variable (spares _ (Expr.variable.inj fixed))
  | .literal _, _ => rfl

theorem Expr.mapAll_of_fixed (spares : Spares move other) :
    ∀ {expressions : List Expr}, Expr.mapAll move expressions = expressions →
      Expr.mapAll other expressions = expressions
  | [], _ => rfl
  | _ :: _, fixed => by
      simp only [Expr.mapAll, List.cons.injEq] at fixed ⊢
      exact ⟨Expr.map_of_fixed spares fixed.1, Expr.mapAll_of_fixed spares fixed.2⟩

end

theorem Expr.mapOption_of_fixed (spares : Spares move other) {expression : Option Expr}
    (fixed : expression.map (Expr.map move) = expression) :
    expression.map (Expr.map other) = expression := by
  cases expression with
  | none => rfl
  | some => exact congrArg some (Expr.map_of_fixed spares (Option.some.inj fixed))

mutual

theorem Stmt.map_of_fixed (spares : Spares move other) :
    ∀ {statement : Stmt}, statement.map move = statement → statement.map other = statement
  | .block _, fixed => by
      simp only [Stmt.map, Stmt.block.injEq] at fixed ⊢
      exact Stmt.mapAll_of_fixed spares fixed
  | .classDecl _ _ _, fixed => by
      simp only [Stmt.map, Stmt.classDecl.injEq] at fixed ⊢
      exact ⟨spares _ fixed.1, Occurrence.mapOption_of_fixed spares fixed.2.1,
        Routine.mapAll_of_fixed spares fixed.2.2⟩
  | .expression _, fixed => by
      simp only [Stmt.map, Stmt.expression.injEq] at fixed ⊢
      exact Expr.map_of_fixed spares fixed
  | .function _, fixed => by
      simp only [Stmt.map, Stmt.function.injEq] at fixed ⊢
      exact Routine.map_of_fixed spares fixed
  | .ifThen _ _ none, fixed => by
      simp only [Stmt.map, Stmt.ifThen.injEq, and_true] at fixed ⊢
      exact ⟨Expr.map_of_fixed spares fixed.1, Stmt.map_of_fixed spares fixed.2⟩
  | .ifThen _ _ (some _), fixed => by
      simp only [Stmt.map, Stmt.ifThen.injEq, Option.some.injEq] at fixed ⊢
      exact ⟨Expr.map_of_fixed spares fixed.1, Stmt.map_of_fixed spares fixed.2.1,
        Stmt.map_of_fixed spares fixed.2.2⟩
  | .print _, fixed => by
      simp only [Stmt.map, Stmt.print.injEq] at fixed ⊢
      exact Expr.map_of_fixed spares fixed
  | .returns _ _, fixed => by
      simp only [Stmt.map, Stmt.returns.injEq] at fixed ⊢
      exact ⟨spares _ fixed.1, Expr.mapOption_of_fixed spares fixed.2⟩
  | .var _ _, fixed => by
      simp only [Stmt.map, Stmt.var.injEq] at fixed ⊢
      exact ⟨spares _ fixed.1, Expr.mapOption_of_fixed spares fixed.2⟩
  | .whileLoop _ _, fixed => by
      simp only [Stmt.map, Stmt.whileLoop.injEq] at fixed ⊢
      exact ⟨Expr.map_of_fixed spares fixed.1, Stmt.map_of_fixed spares fixed.2⟩

theorem Routine.map_of_fixed (spares : Spares move other) :
    ∀ {routine : Routine}, routine.map move = routine → routine.map other = routine
  | .mk _ _ _, fixed => by
      simp only [Routine.map, Routine.mk.injEq] at fixed ⊢
      exact ⟨spares _ fixed.1, Occurrence.mapList_of_fixed spares fixed.2.1,
        Stmt.mapAll_of_fixed spares fixed.2.2⟩

theorem Stmt.mapAll_of_fixed (spares : Spares move other) :
    ∀ {statements : List Stmt}, Stmt.mapAll move statements = statements →
      Stmt.mapAll other statements = statements
  | [], _ => rfl
  | _ :: _, fixed => by
      simp only [Stmt.mapAll, List.cons.injEq] at fixed ⊢
      exact ⟨Stmt.map_of_fixed spares fixed.1, Stmt.mapAll_of_fixed spares fixed.2⟩

theorem Routine.mapAll_of_fixed (spares : Spares move other) :
    ∀ {routines : List Routine}, Routine.mapAll move routines = routines →
      Routine.mapAll other routines = routines
  | [], _ => rfl
  | _ :: _, fixed => by
      simp only [Routine.mapAll, List.cons.injEq] at fixed ⊢
      exact ⟨Routine.map_of_fixed spares fixed.1, Routine.mapAll_of_fixed spares fixed.2⟩

end

end Fixed

end LoxLang
