import LoxLang.Proofs.Reading.ExpressionWords
import LoxLang.Proofs.Reading.StatementSoundness

/-! # The words of statements

The words mentioned in the trees that the statement readers deliver are among the tokens
taken, and in order, whether faults were noted or not. An abandoned declaration leaves no
words behind, and what follows it is read from later tokens.
-/

namespace LoxLang.Reader

open Grammar

variable {depth : Nat} {stream : Stream}

def DrawsStatement (taken : List Occurrence) (_ : List ReadingFault) (tree : Stmt)
    (_ : Stream) : Prop :=
  Mention.Drawn tree.mentions tree.InOrder taken

def DrawsStatements (taken : List Occurrence) (_ : List ReadingFault) (trees : List Stmt)
    (_ : Stream) : Prop :=
  Mention.Drawn (Stmt.mentionsOfAll trees) (Stmt.InOrderAll trees) taken

def DrawsUndeclaring (taken : List Occurrence) (added : List ReadingFault) (tree : Stmt)
    (after : Stream) : Prop :=
  tree.declared? = none ∧ DrawsStatement taken added tree after

def DrawsRoutine (taken : List Occurrence) (_ : List ReadingFault) (tree : Routine)
    (_ : Stream) : Prop :=
  Mention.Drawn (.declaration tree.name :: tree.mentions)
    (Mention.Before [.declaration tree.name] tree.mentions ∧ tree.InOrder) taken

def DrawsMethods (taken : List Occurrence) (_ : List ReadingFault) (trees : List Routine)
    (_ : Stream) : Prop :=
  Mention.Drawn (Routine.mentionsOfMethods trees) (Routine.InOrderAll trees) taken

structure StatementsDrawn (depth : Nat) : Prop where
  declarations : ∀ extent stream, Room stream 19 depth →
    (declarations depth extent).Meets stream DrawsStatements
  declaration : ∀ stream, Room stream 18 depth →
    (declaration depth).Meets stream fun taken added found =>
      DrawsStatements taken added found.toList
  wholeDeclaration : ∀ stream, Room stream 17 depth →
    (wholeDeclaration depth).Meets stream DrawsStatement
  classDeclaration : ∀ stream, Room stream 1 depth →
    (classDeclaration depth).Meets stream DrawsStatement
  methods : ∀ stream, Room stream 2 depth → (methods depth).Meets stream DrawsMethods
  routine : ∀ kind stream, Room stream 1 depth →
    (routine depth kind).Meets stream DrawsRoutine
  block : ∀ stream, Room stream 20 depth → (block depth).Meets stream DrawsStatements
  statement : ∀ stream, Room stream 16 depth →
    (statement depth).Meets stream DrawsUndeclaring
  forStatement : ∀ stream, Room stream 1 depth →
    (forStatement depth).Meets stream DrawsUndeclaring
  ifStatement : ∀ stream, Room stream 1 depth →
    (ifStatement depth).Meets stream DrawsUndeclaring
  whileStatement : ∀ stream, Room stream 1 depth →
    (whileStatement depth).Meets stream DrawsUndeclaring

theorem drawsStatements_single {taken : List Occurrence} {added : List ReadingFault}
    {tree : Stmt} {after : Stream} (drawn : DrawsStatement taken added tree after) :
    DrawsStatements taken added [tree] after := by
  rw [DrawsStatements, Stmt.mentionsOfAll, Stmt.mentionsOfAll, List.append_nil]
  exact Mention.Drawn.weaken drawn fun inOrder =>
    Stmt.inOrderAll_cons inOrder trivial fun _ _ _ => nofun

theorem drawsStatements_append {taken taken' : List Occurrence}
    {added added' : List ReadingFault} {found : Option Stmt} {rest : List Stmt}
    {after after' : Stream} (first : DrawsStatements taken added found.toList after)
    (others : DrawsStatements taken' added' rest after') :
    DrawsStatements (taken ++ taken') (added ++ added') (found.toList ++ rest) after' := by
  have both := Mention.Drawn.append first others
  cases found with
  | none => exact both.weaken fun parts => parts.1.2
  | some tree =>
      rw [Option.toList_some, Stmt.mentionsOfAll, Stmt.mentionsOfAll,
        List.append_nil] at both
      exact both.weaken fun ⟨⟨inOrder, inOrder'⟩, before⟩ =>
        Stmt.inOrderAll_cons inOrder.1 inOrder' before

/-! ## Phrases without statements in them -/

theorem expressionUnless_drawn (kind : Kind) (room : Room stream 15 depth) :
    (expressionUnless kind depth).Meets stream fun taken _ found _ =>
      Reference.Drawn (Expr.referencesOfOption found) taken := by
  rw [expressionUnless]
  refine meets_of_follows fun word _ => ?_
  split
  · exact meets_pure (.nil [])
  · exact Meets.map ((expressionsDrawn depth).expression stream room)

theorem expressionStatement_drawn (room : Room stream 15 depth) :
    (expressionStatement depth).Meets stream DrawsUndeclaring := by
  rw [expressionStatement]
  apply ((expressionsDrawn depth).expression stream room).bind
  intro taken added tree after _ drawn
  refine meets_of_expect fun semicolon after' _ _ => ?_
  exact meets_pure ⟨rfl, (drawn.mentions none).close semicolon⟩

theorem printStatement_drawn (room : Room stream 15 depth) :
    (printStatement depth).Meets stream DrawsUndeclaring := by
  rw [printStatement]
  apply ((expressionsDrawn depth).expression stream room).bind
  intro taken added tree after _ drawn
  refine meets_of_expect fun semicolon after' _ _ => ?_
  exact meets_pure ⟨rfl, (drawn.mentions none).close semicolon⟩

theorem returnStatement_drawn {word : Occurrence}
    (wordKind : word.kind = Keyword.returnWord) (room : Room stream 15 depth) :
    (returnStatement word depth).Meets stream fun taken =>
      DrawsUndeclaring (word :: taken) := by
  rw [returnStatement]
  apply (expressionUnless_drawn _ room).bind
  intro taken added value after _ drawn
  refine meets_of_expect fun semicolon after' _ _ => ?_
  have both : Mention.Drawn (⟨.returns value.isSome, word⟩ :: _) _ _ :=
    ((drawn.mentions none).close semicolon).cons wordKind
  exact meets_pure ⟨rfl, both.weaken fun _ => trivial⟩

theorem varDeclaration_drawn (room : Room stream 15 depth) :
    (varDeclaration depth).Meets stream DrawsStatement := by
  rw [varDeclaration]
  refine meets_of_expect fun name after reads nameKind => ?_
  refine meets_of_accept ?_ ?_
  · intro equal after' reads' _
    simp only [bind_map_left]
    have room : Room stream 15 (depth + 1) := room.mono (by omega)
    refine ((expressionsDrawn depth).expression after'
      (room.after (reads.trans reads') (by simp))).bind ?_
    intro taken added tree after'' _ drawn
    refine meets_of_expect fun semicolon after' _ _ => ?_
    have initializer := ((drawn.mentions (some name)).close semicolon).skip equal
    exact meets_pure ((initializer.cons nameKind).weaken And.left)
  · intro _
    simp only [pure_bind]
    refine meets_of_expect fun semicolon after' _ _ => ?_
    exact meets_pure (((Mention.Drawn.nil [semicolon]).cons nameKind).weaken And.left)

theorem superclass_drawn (name : Occurrence) :
    superclass.Meets stream fun taken _ found _ =>
      Mention.Drawn (Mention.superclass name found) True taken := by
  rw [superclass]
  refine meets_of_accept ?_ ?_
  · intro less after _ _
    rw [map_eq_pure_bind]
    refine meets_of_expect fun word after' _ wordKind => ?_
    have clause : Mention.Drawn [⟨.inherits name, word⟩] _ [word] :=
      (Mention.Drawn.nil []).cons wordKind
    exact meets_pure ((clause.skip less).weaken fun _ => trivial)
  · intro _
    exact meets_pure (.nil [])

theorem forInitializer_drawn (room : Room stream 15 depth) :
    (forInitializer depth).Meets stream fun taken added found =>
      DrawsStatements taken added found.toList := by
  have room' : Room stream 15 (depth + 1) := room.mono (by omega)
  rw [forInitializer]
  refine meets_of_next fun word front => ?_
  split
  case h_1 semicolonKind =>
    refine meets_of_skip front (by simp [semicolonKind]) fun after _ => ?_
    exact meets_pure (.nil _)
  case h_2 wordKind =>
    refine meets_of_skip front (by simp [wordKind]) fun after reads => ?_
    refine Meets.map ((varDeclaration_drawn (room'.after reads (by simp))).weaken ?_)
    exact fun _ _ _ _ _ drawn => Mention.Drawn.skip (drawsStatements_single drawn) _
  case h_3 =>
    refine Meets.map ((expressionStatement_drawn room).weaken ?_)
    exact fun _ _ _ _ _ drawn => drawsStatements_single drawn.2

def DrawsParameters (taken : List Occurrence) (_ : List ReadingFault)
    (names : List Occurrence) (_ : Stream) : Prop :=
  Mention.Drawn (names.map .declaration) (names.Pairwise (·.place < ·.place)) taken

theorem drawsParameters_cons {taken : List Occurrence} {added : List ReadingFault}
    {name : Occurrence} {names : List Occurrence} {after : Stream}
    (nameKind : name.kind = .identifier) (drawn : DrawsParameters taken added names after) :
    DrawsParameters (name :: taken) added (name :: names) after :=
  (Mention.Drawn.cons drawn nameKind).weaken fun ⟨before, inOrder⟩ =>
    List.pairwise_cons.mpr ⟨fun _ member =>
      before _ List.mem_cons_self _ (List.mem_map_of_mem member), inOrder⟩

private theorem furtherParameter_drawn {comma : Occurrence} {count : Nat}
    (others : ∀ stream, Room stream 1 depth →
      (moreParameters depth count).Meets stream DrawsParameters)
    (room : Room stream 1 (depth + 1)) :
    (do
      let parameter ← expect .identifier .parameterName
      let others ← moreParameters depth count
      pure (parameter :: others) : Reader (List Occurrence)).Meets stream
        fun taken => DrawsParameters (comma :: taken) := by
  refine meets_of_expect fun name after reads nameKind => ?_
  refine (others after (room.after reads (by simp))).bind ?_
  intro taken added names after' _ drawn
  have all : DrawsParameters (comma :: name :: taken) added (name :: names) after' :=
    Mention.Drawn.skip (drawsParameters_cons nameKind drawn) comma
  exact meets_pure (by simpa using all)

theorem moreParameters_drawn : ∀ (depth count : Nat) (stream : Stream),
    Room stream 1 depth → (moreParameters depth count).Meets stream DrawsParameters
  | 0, _, _, room => absurd room.1 (by omega)
  | depth + 1, count, stream, room => by
      have room : Room stream 1 (depth + 2) := room.mono (by omega)
      have others := moreParameters_drawn depth (count + 1)
      rw [moreParameters]
      refine meets_of_accept ?_ ?_
      · intro comma after reads _
        dsimp only
        split
        case isTrue =>
          refine meets_of_next fun word _ => meets_of_complain fun after' reads' => ?_
          exact furtherParameter_drawn others (room.after (reads.trans reads') (by simp))
        case isFalse => exact furtherParameter_drawn others (room.after reads (by simp))
      · intro _
        exact meets_pure ⟨.refl _, List.forall_mem_nil _, fun _ => .nil⟩

theorem parameters_drawn (room : Room stream 1 depth) :
    (parameters depth).Meets stream DrawsParameters := by
  rw [parameters]
  refine meets_of_follows fun word _ => ?_
  split
  · exact meets_pure ⟨.refl _, List.forall_mem_nil _, fun _ => .nil⟩
  · refine meets_of_expect fun name after reads nameKind => ?_
    have room : Room stream 1 (depth + 1) := room.mono (by omega)
    refine (moreParameters_drawn depth 1 after (room.after reads (by simp))).bind ?_
    intro taken added names after' _ drawn
    exact meets_pure (by simpa using drawsParameters_cons nameKind drawn)

/-! ## Declarations -/

theorem declaration_drawn (readers : StatementsDrawn depth)
    (room : Room stream 18 (depth + 1)) :
    (declaration (depth + 1)).Meets stream fun taken added found =>
      DrawsStatements taken added found.toList :=
  (delivers_declaration (readers.wholeDeclaration stream (room.deeper (by omega)))
    (fun _ _ _ _ drawn => drawsStatements_single drawn)
    (fun taken _ _ _ _ => .nil taken)).meets

theorem declarations_drawn {extent : Extent} (readers : StatementsDrawn depth)
    (room : Room stream 19 (depth + 1)) :
    (declarations (depth + 1) extent).Meets stream DrawsStatements := by
  rw [declarations]
  refine meets_of_ended fun answer finished => ?_
  split
  case isTrue => exact meets_pure (.nil _)
  case isFalse unended =>
    have unended : ¬Ends .wholeInput stream.rest := fun ends =>
      unended (finished.mpr (ends.of_wholeInput extent))
    have room' : Room stream 18 depth := room.deeper (by omega)
    have progress := ((statementsSound depth).declaration stream room').meets
    apply ((readers.declaration stream room').and progress).bind
    rintro taken added found after reads ⟨drawn, progress, -⟩
    have taken_nonempty := List.length_pos_iff.mpr (progress unended)
    apply (readers.declarations extent after (room.after reads (by omega))).bind
    intro taken' added' trees after' _ drawn'
    exact meets_pure (by simpa using drawsStatements_append drawn drawn')

theorem wholeDeclaration_drawn (readers : StatementsDrawn depth)
    (room : Room stream 17 (depth + 1)) :
    (wholeDeclaration (depth + 1)).Meets stream DrawsStatement := by
  rw [wholeDeclaration]
  refine meets_of_next fun word front => ?_
  split
  case h_1 wordKind =>
    refine meets_of_skip front (by simp [wordKind]) fun after reads => ?_
    refine (readers.classDeclaration after (room.after reads (by simp))).weaken ?_
    exact fun _ _ _ _ _ drawn => Mention.Drawn.skip drawn _
  case h_2 wordKind =>
    refine meets_of_skip front (by simp [wordKind]) fun after reads => ?_
    refine Meets.map ((readers.routine .function after
      (room.after reads (by simp))).weaken ?_)
    exact fun _ _ _ _ _ drawn => Mention.Drawn.skip drawn _
  case h_3 wordKind =>
    refine meets_of_skip front (by simp [wordKind]) fun after reads => ?_
    refine (varDeclaration_drawn (room.after reads (by simp))).weaken ?_
    exact fun _ _ _ _ _ drawn => Mention.Drawn.skip drawn _
  case h_4 =>
    apply (readers.statement stream (room.deeper (by omega))).weaken
    exact fun _ _ _ _ _ drawn => drawn.2

theorem classDeclaration_drawn (readers : StatementsDrawn depth)
    (room : Room stream 1 (depth + 1)) :
    (classDeclaration (depth + 1)).Meets stream DrawsStatement := by
  rw [classDeclaration]
  refine meets_of_expect fun name after reads nameKind => ?_
  refine (superclass_drawn name).bind ?_
  intro taken added clause after' reads' clauseDrawn
  refine meets_of_expect fun leftBrace after'' reads'' _ => ?_
  have reads := (reads.trans reads').trans reads''
  refine (readers.methods after'' (room.after reads (by simp; omega))).bind ?_
  intro taken' added' methods after _ methodsDrawn
  refine meets_of_expect fun rightBrace after' _ _ => ?_
  refine meets_pure ?_
  have body := (Mention.Drawn.close methodsDrawn rightBrace).skip leftBrace
  exact ((clauseDrawn.append body).cons nameKind).weaken fun parts =>
    ⟨parts.1, parts.2.1.2⟩

theorem methods_drawn (readers : StatementsDrawn depth)
    (room : Room stream 2 (depth + 1)) :
    (methods (depth + 1)).Meets stream DrawsMethods := by
  rw [methods]
  refine meets_of_ended fun answer _ => ?_
  split
  · exact meets_pure (.nil _)
  · have progress := (statementsSound depth).routine .method stream (room.deeper (by omega))
    apply ((readers.routine .method _ (room.deeper (by omega))).and progress).bind
    rintro taken added method after reads ⟨drawn, nonempty, -⟩
    have taken_nonempty := List.length_pos_iff.mpr nonempty
    apply (readers.methods after (room.after reads (by omega))).bind
    intro taken' added' methods after' _ drawn'
    have both :
        DrawsMethods (taken ++ taken') (added ++ added') (method :: methods) after' :=
      ((Mention.Drawn.tail drawn).append drawn').weaken fun parts =>
        ⟨parts.1.1.2, parts.1.2⟩
    exact meets_pure (by simpa using both)

theorem routine_drawn {kind : RoutineKind} (readers : StatementsDrawn depth)
    (room : Room stream 1 (depth + 1)) :
    (routine (depth + 1) kind).Meets stream DrawsRoutine := by
  rw [routine]
  refine meets_of_expect fun name after reads nameKind => ?_
  refine meets_of_expect fun leftParen after' reads' _ => ?_
  have reads := reads.trans reads'
  refine (parameters_drawn (room.after reads (by simp))).bind ?_
  intro taken added parameters after reads' parametersDrawn
  have reads := reads.trans reads'
  refine meets_of_expect fun rightParen after' reads' _ => ?_
  have reads := reads.trans reads'
  refine meets_of_expect fun leftBrace after' reads' _ => ?_
  have reads := reads.trans reads'
  refine (readers.block after' (room.after reads (by simp; omega))).bind ?_
  intro taken' added' body after _ bodyDrawn
  have bodyDrawn := (Mention.Drawn.skip bodyDrawn leftBrace).skip rightParen
  have inside := (Mention.Drawn.append parametersDrawn bodyDrawn).skip leftParen
  have drawn : DrawsRoutine
      (name :: leftParen :: (taken ++ rightParen :: leftBrace :: taken')) (added ++ added')
      (.mk name parameters body) after := by
    apply (inside.cons nameKind).weaken
    intro parts
    exact ⟨parts.1, parts.2.1.1, parts.2.2, parts.2.1.2⟩
  exact meets_pure (by simpa using drawn)

theorem block_drawn (readers : StatementsDrawn depth)
    (room : Room stream 20 (depth + 1)) :
    (block (depth + 1)).Meets stream DrawsStatements := by
  rw [block]
  apply (readers.declarations .block stream (room.deeper (by omega))).bind
  intro taken added statements after _ drawn
  refine meets_of_expect fun rightBrace after' _ _ => ?_
  exact meets_pure (Mention.Drawn.close drawn rightBrace)

/-! ## Statements -/

theorem statement_drawn (readers : StatementsDrawn depth)
    (room : Room stream 16 (depth + 1)) :
    (statement (depth + 1)).Meets stream DrawsUndeclaring := by
  rw [statement]
  refine meets_of_next fun word front => ?_
  split
  case h_1 wordKind =>
    refine meets_of_skip front (by simp [wordKind]) fun after reads => ?_
    refine (readers.forStatement after (room.after reads (by simp))).weaken ?_
    exact fun _ _ _ _ _ drawn => ⟨drawn.1, Mention.Drawn.skip drawn.2 _⟩
  case h_2 wordKind =>
    refine meets_of_skip front (by simp [wordKind]) fun after reads => ?_
    refine (readers.ifStatement after (room.after reads (by simp))).weaken ?_
    exact fun _ _ _ _ _ drawn => ⟨drawn.1, Mention.Drawn.skip drawn.2 _⟩
  case h_3 wordKind =>
    refine meets_of_skip front (by simp [wordKind]) fun after reads => ?_
    refine (printStatement_drawn (room.after reads (by simp))).weaken ?_
    exact fun _ _ _ _ _ drawn => ⟨drawn.1, Mention.Drawn.skip drawn.2 _⟩
  case h_4 wordKind =>
    refine meets_of_skip front (by simp [wordKind]) fun after reads => ?_
    exact returnStatement_drawn wordKind (room.after reads (by simp))
  case h_5 wordKind =>
    refine meets_of_skip front (by simp [wordKind]) fun after reads => ?_
    refine (readers.whileStatement after (room.after reads (by simp))).weaken ?_
    exact fun _ _ _ _ _ drawn => ⟨drawn.1, Mention.Drawn.skip drawn.2 _⟩
  case h_6 leftBraceKind =>
    refine meets_of_skip front (by simp [leftBraceKind]) fun after reads => ?_
    refine Meets.map ((readers.block after (room.after reads (by simp))).weaken ?_)
    exact fun _ _ _ _ _ drawn => ⟨rfl, Mention.Drawn.skip drawn _⟩
  case h_7 => exact expressionStatement_drawn (room.deeper (by omega))

theorem whileStatement_drawn (readers : StatementsDrawn depth)
    (room : Room stream 1 (depth + 1)) :
    (whileStatement (depth + 1)).Meets stream DrawsUndeclaring := by
  rw [whileStatement]
  refine meets_of_expect fun leftParen after reads _ => ?_
  refine ((expressionsDrawn depth).expression after (room.after reads (by simp))).bind ?_
  intro taken added condition after' reads' conditionDrawn
  have reads := reads.trans reads'
  refine meets_of_expect fun rightParen after reads' _ => ?_
  refine (readers.statement after (room.after (reads.trans reads') (by simp; omega))).bind
    ?_
  rintro taken' added' body after' _ ⟨undeclared, bodyDrawn⟩
  have bodyDrawn := Mention.Drawn.skip bodyDrawn rightParen
  have drawn : DrawsUndeclaring (leftParen :: (taken ++ rightParen :: taken'))
      (added ++ added') (.whileLoop condition body) after' :=
    ⟨rfl, (((conditionDrawn.mentions none).append bodyDrawn).skip leftParen).weaken
      fun parts => ⟨undeclared, parts.1.2⟩⟩
  exact meets_pure (by simpa using drawn)

theorem repeatedByFor_drawn {body : Stmt} {increment : Option Expr}
    {tokens tokens' : List Occurrence} (undeclared : body.declared? = none)
    (incrementDrawn : Reference.Drawn (Expr.referencesOfOption increment) tokens)
    (bodyDrawn : Mention.Drawn body.mentions body.InOrder tokens') :
    Mention.Drawn (repeatedByFor body increment).mentions
      (repeatedByFor body increment).InOrder (tokens ++ tokens') := by
  cases increment with
  | none =>
      exact ((incrementDrawn.mentions none).append bodyDrawn).weaken fun parts => parts.1.2
  | some increment =>
      have both := bodyDrawn.swap (incrementDrawn.mentions none)
      rw [repeatedByFor, Stmt.mentions, Stmt.mentionsOfAll, Stmt.mentionsOfAll,
        Stmt.mentionsOfAll, List.append_nil]
      have inOrder : (Stmt.expression increment).InOrder := trivial
      exact both.weaken fun parts => Stmt.inOrderAll_pair parts.1 inOrder undeclared rfl

theorem repeatedByFor_declared? {body : Stmt} (undeclared : body.declared? = none)
    (increment : Option Expr) : (repeatedByFor body increment).declared? = none := by
  cases increment with
  | none => exact undeclared
  | some increment => rfl

theorem forTree_drawn {initializer : Option Stmt} {condition increment : Option Expr}
    {body : Stmt} {first second third fourth : List Occurrence}
    (undeclared : body.declared? = none)
    (initializerDrawn : Mention.Drawn (Stmt.mentionsOfAll initializer.toList)
      (Stmt.InOrderAll initializer.toList) first)
    (conditionDrawn : Reference.Drawn (Expr.referencesOfOption condition) second)
    (incrementDrawn : Reference.Drawn (Expr.referencesOfOption increment) third)
    (bodyDrawn : Mention.Drawn body.mentions body.InOrder fourth) :
    Mention.Drawn (forTree condition increment body initializer).mentions
      (forTree condition increment body initializer).InOrder
      (first ++ (second ++ (third ++ fourth))) := by
  have conditionDrawn :
      Reference.Drawn (condition.getD (.literal (.bool true))).references second := by
    cases condition with
    | none => exact .nil second
    | some condition => exact conditionDrawn
  have loop := (conditionDrawn.mentions none).append
    (repeatedByFor_drawn undeclared incrementDrawn bodyDrawn)
  have both := initializerDrawn.append loop
  have undeclared := repeatedByFor_declared? undeclared increment
  cases initializer with
  | none => exact both.weaken fun parts => ⟨undeclared, parts.1.2.1.2⟩
  | some initializer =>
      rw [Option.toList_some, Stmt.mentionsOfAll, Stmt.mentionsOfAll,
        List.append_nil] at both
      rw [forTree, Stmt.mentions, Stmt.mentionsOfAll, Stmt.mentionsOfAll,
        Stmt.mentionsOfAll, List.append_nil]
      refine both.weaken fun ⟨⟨inOrder, inOrder'⟩, before⟩ => ?_
      refine Stmt.inOrderAll_cons inOrder.1 ⟨⟨undeclared, inOrder'.1.2⟩, trivial, ?_, ?_⟩ ?_
      · exact fun _ _ _ => nofun
      · exact fun _ _ _ => nofun
      · rwa [Stmt.mentionsOfAll, Stmt.mentionsOfAll, List.append_nil]

theorem forLoop_declared? (initializer : Option Stmt) (condition increment : Option Expr)
    (body : Stmt) :
    (Stmt.forLoop initializer condition increment body).declared? = none := by
  cases initializer <;> rfl

theorem forStatement_drawn (readers : StatementsDrawn depth)
    (room : Room stream 1 (depth + 1)) :
    (forStatement (depth + 1)).Meets stream DrawsUndeclaring := by
  rw [forStatement]
  refine meets_of_expect fun leftParen after reads _ => ?_
  refine (forInitializer_drawn (room.after reads (by simp))).bind ?_
  intro taken₁ added₁ initializer after reads' initializerDrawn
  have reads := reads.trans reads'
  apply (expressionUnless_drawn _ (room.after reads (by simp; omega))).bind
  intro taken₂ added₂ condition after reads' conditionDrawn
  have reads := reads.trans reads'
  refine meets_of_expect fun semicolon after reads' _ => ?_
  have reads := reads.trans reads'
  refine (expressionUnless_drawn _ (room.after reads (by simp; omega))).bind ?_
  intro taken₃ added₃ increment after reads' incrementDrawn
  have reads := reads.trans reads'
  refine meets_of_expect fun rightParen after reads' _ => ?_
  refine (readers.statement after (room.after (reads.trans reads') (by simp; omega))).bind
    ?_
  rintro taken₄ added₄ body after _ ⟨undeclared, bodyDrawn⟩
  have loop := forTree_drawn undeclared initializerDrawn conditionDrawn
    (incrementDrawn.skip semicolon) (Mention.Drawn.skip bodyDrawn rightParen)
  rw [← forLoop_eq_forTree] at loop
  refine meets_pure ⟨forLoop_declared? _ _ _ _, ?_⟩
  simpa [DrawsStatement] using loop.skip leftParen

theorem ifStatement_drawn (readers : StatementsDrawn depth)
    (room : Room stream 1 (depth + 1)) :
    (ifStatement (depth + 1)).Meets stream DrawsUndeclaring := by
  rw [ifStatement]
  refine meets_of_expect fun leftParen after reads _ => ?_
  refine ((expressionsDrawn depth).expression after (room.after reads (by simp))).bind ?_
  intro taken₁ added₁ condition after reads' conditionDrawn
  have reads := reads.trans reads'
  refine meets_of_expect fun rightParen after reads' _ => ?_
  have reads := reads.trans reads'
  refine (readers.statement after (room.after reads (by simp; omega))).bind ?_
  rintro taken₂ added₂ thenBranch after reads' ⟨thenUndeclared, thenDrawn⟩
  have reads := reads.trans reads'
  have thenDrawn := Mention.Drawn.skip thenDrawn rightParen
  refine meets_of_accept ?_ ?_
  · intro elseWord after elseReads _
    simp only [bind_map_left]
    refine (readers.statement after
      (room.after (reads.trans elseReads) (by simp; omega))).bind ?_
    rintro taken₃ added₃ elseBranch after _ ⟨elseUndeclared, elseDrawn⟩
    have branches := thenDrawn.append (Mention.Drawn.skip elseDrawn elseWord)
    have drawn : DrawsStatement
        (leftParen :: (taken₁ ++ rightParen :: (taken₂ ++ elseWord :: taken₃)))
        (added₁ ++ (added₂ ++ added₃)) (.ifThen condition thenBranch (some elseBranch))
        after :=
      (((conditionDrawn.mentions none).append branches).skip leftParen).weaken
        fun parts =>
          ⟨⟨thenUndeclared, parts.1.2.1.1⟩, elseUndeclared, parts.1.2.1.2⟩
    exact meets_pure ⟨rfl, by simpa using drawn⟩
  · intro _
    simp only [pure_bind]
    have drawn : DrawsStatement (leftParen :: (taken₁ ++ rightParen :: taken₂))
        (added₁ ++ added₂) (.ifThen condition thenBranch none) after :=
      (((conditionDrawn.mentions none).append thenDrawn).skip leftParen).weaken
        fun parts => ⟨thenUndeclared, parts.1.2⟩
    exact meets_pure ⟨rfl, by simpa using drawn⟩

theorem statementsDrawn : ∀ depth, StatementsDrawn depth
  | 0 => by
      constructor <;> intros <;> rename_i room <;> exact absurd room.1 (by omega)
  | depth + 1 =>
      have readers := statementsDrawn depth
      { declarations := fun _ _ room => declarations_drawn readers room
        declaration := fun _ room => declaration_drawn readers room
        wholeDeclaration := fun _ room => wholeDeclaration_drawn readers room
        classDeclaration := fun _ room => classDeclaration_drawn readers room
        methods := fun _ room => methods_drawn readers room
        routine := fun _ _ room => routine_drawn readers room
        block := fun _ room => block_drawn readers room
        statement := fun _ room => statement_drawn readers room
        forStatement := fun _ room => forStatement_drawn readers room
        ifStatement := fun _ room => ifStatement_drawn readers room
        whileStatement := fun _ room => whileStatement_drawn readers room }

end LoxLang.Reader
