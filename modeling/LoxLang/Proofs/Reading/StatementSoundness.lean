import LoxLang.Proofs.Grammar.Statement
import LoxLang.Proofs.Reading.ExpressionSoundness
import LoxLang.Reading.Statement

/-! # Statements that are read are derivable

A statement reader that notes no fault has read a phrase of the grammar in which every
`else` belongs to the nearest `if`, and delivers its tree. The readers of declarations
always deliver: an abandoned declaration takes at least one token, so what follows it is
read from a shorter stream.
-/

namespace LoxLang.Reader

open Grammar

variable {depth : Nat} {stream : Stream}

def Completes (phrase : StatementPhrase) (before taken : List Occurrence)
    (added : List ReadingFault) (tree : phrase.Tree) (_ : Stream) : Prop :=
  added = [] → Statement .nearestIf phrase (before ++ taken) tree

/-- No `else` comes next. -/
def NoElse (rest : List Occurrence) : Prop :=
  ∀ token ∈ rest.head?, token.kind ≠ Keyword.elseWord

def CompletesStatement (before taken : List Occurrence) (added : List ReadingFault)
    (tree : Stmt) (after : Stream) : Prop :=
  added = [] → ∃ isOpen, Statement .nearestIf (.statement isOpen) (before ++ taken) tree ∧
    (isOpen → NoElse after.rest)

/-- The declarations of this extent are over before these tokens. -/
def Ends (extent : Extent) (rest : List Occurrence) : Prop :=
  ∃ token ∈ rest.head?,
    token.kind = .endOfInput ∨ extent = .block ∧ token.kind = Symbol.rightBrace

structure StatementsSound (depth : Nat) : Prop where
  declarations : ∀ extent stream, Room stream 19 depth →
    (declarations depth extent).Delivers stream fun taken added trees after =>
      Ends extent after.rest ∧ Completes .declarations [] taken added trees after
  declaration : ∀ stream, Room stream 18 depth →
    (declaration depth).Delivers stream fun taken added found _ =>
      (¬Ends .wholeInput stream.rest → taken ≠ []) ∧
        (added = [] → ∃ tree, found = some tree ∧
          Statement .nearestIf .declaration taken tree)
  wholeDeclaration : ∀ stream, Room stream 17 depth →
    (wholeDeclaration depth).Meets stream fun taken added tree after =>
      taken ≠ [] ∧ Completes .declaration [] taken added tree after
  classDeclaration : ∀ (word : Occurrence) stream, word.kind = Keyword.classWord →
    Room stream 1 depth → (classDeclaration depth).Meets stream
      (Completes .declaration [word])
  methods : ∀ stream, Room stream 2 depth →
    (methods depth).Meets stream (Completes .methods [])
  routine : ∀ kind stream, Room stream 1 depth →
    (routine depth kind).Meets stream fun taken added tree after =>
      taken ≠ [] ∧ Completes .routine [] taken added tree after
  block : ∀ (leftBrace : Occurrence) stream, leftBrace.kind = Symbol.leftBrace →
    Room stream 20 depth → (block depth).Meets stream (Completes .block [leftBrace])
  statement : ∀ stream, Room stream 16 depth →
    (statement depth).Meets stream fun taken added tree after =>
      taken ≠ [] ∧ CompletesStatement [] taken added tree after
  forStatement : ∀ (word : Occurrence) stream, word.kind = Keyword.forWord →
    Room stream 1 depth → (forStatement depth).Meets stream (CompletesStatement [word])
  ifStatement : ∀ (word : Occurrence) stream, word.kind = Keyword.ifWord →
    Room stream 1 depth → (ifStatement depth).Meets stream (CompletesStatement [word])
  whileStatement : ∀ (word : Occurrence) stream, word.kind = Keyword.whileWord →
    Room stream 1 depth → (whileStatement depth).Meets stream (CompletesStatement [word])

/-! ## Phrases without statements in them -/

theorem expressionUnless_sound (kind : Kind) (room : Room stream 15 depth) :
    (expressionUnless kind depth).Meets stream fun taken added found _ =>
      added = [] → OptionalExpression taken found := by
  rw [expressionUnless]
  refine meets_of_follows fun word _ => ?_
  split
  · exact meets_pure fun _ => .absent
  · refine Meets.map (((expressionsSound depth).expression stream room).weaken ?_)
    exact fun _ _ _ _ _ phrase clean => .present (phrase.2 clean)

theorem expressionStatement_sound (room : Room stream 15 depth) :
    (expressionStatement depth).Meets stream fun taken added tree _ =>
      taken ≠ [] ∧ (added = [] → ExpressionStatement taken tree) := by
  rw [expressionStatement]
  apply ((expressionsSound depth).expression stream room).bind
  rintro taken added tree after _ ⟨_, phrase⟩
  refine meets_of_expect fun semicolon after' _ semicolonKind => ?_
  exact meets_pure ⟨by simp, fun clean =>
    .mk (phrase (by simpa using clean)) semicolonKind⟩

theorem printStatement_sound {word : Occurrence}
    (wordKind : word.kind = Keyword.printWord) (room : Room stream 15 depth) :
    (printStatement depth).Meets stream (CompletesStatement [word]) := by
  rw [printStatement]
  apply ((expressionsSound depth).expression stream room).bind
  rintro taken added tree after _ ⟨_, phrase⟩
  refine meets_of_expect fun semicolon after' _ semicolonKind => ?_
  refine meets_pure fun clean => ⟨false, ?_, by simp⟩
  exact .printStatement wordKind (phrase (by simpa using clean)) semicolonKind

theorem returnStatement_sound {word : Occurrence}
    (wordKind : word.kind = Keyword.returnWord) (room : Room stream 15 depth) :
    (returnStatement word depth).Meets stream (CompletesStatement [word]) := by
  rw [returnStatement]
  apply (expressionUnless_sound _ room).bind
  intro taken added value after _ phrase
  refine meets_of_expect fun semicolon after' _ semicolonKind => ?_
  refine meets_pure fun clean => ⟨false, ?_, by simp⟩
  exact .returnStatement wordKind (phrase (by simpa using clean)) semicolonKind

theorem varDeclaration_sound {word : Occurrence} (wordKind : word.kind = Keyword.varWord)
    (room : Room stream 15 depth) :
    (varDeclaration depth).Meets stream fun taken added tree _ =>
      added = [] → VarDeclaration (word :: taken) tree := by
  rw [varDeclaration]
  refine meets_of_expect fun name after reads nameKind => ?_
  refine meets_of_accept ?_ ?_
  · intro equal after' reads' equalKind
    simp only [bind_map_left]
    have room : Room stream 15 (depth + 1) := room.mono (by omega)
    refine ((expressionsSound depth).expression after'
      (room.after (reads.trans reads') (by simp))).bind ?_
    rintro taken added tree after'' _ ⟨_, phrase⟩
    refine meets_of_expect fun semicolon after' _ semicolonKind => ?_
    refine meets_pure fun clean => ?_
    exact .mk wordKind nameKind (.present equalKind (phrase (by simpa using clean)))
      semicolonKind
  · intro _
    simp only [pure_bind]
    refine meets_of_expect fun semicolon after' _ semicolonKind => ?_
    exact meets_pure fun _ => .mk wordKind nameKind .absent semicolonKind

theorem superclass_sound :
    superclass.Meets stream fun taken added found _ =>
      added = [] → SuperclassClause taken found := by
  rw [superclass]
  refine meets_of_accept ?_ ?_
  · intro less after _ lessKind
    rw [map_eq_pure_bind]
    refine meets_of_expect fun name after' _ nameKind => ?_
    exact meets_pure fun _ => .present lessKind nameKind
  · intro _
    exact meets_pure fun _ => .absent

theorem forInitializer_sound (room : Room stream 15 depth) :
    (forInitializer depth).Meets stream fun taken added found _ =>
      added = [] → ForInitializer taken found := by
  have room' : Room stream 15 (depth + 1) := room.mono (by omega)
  rw [forInitializer]
  refine meets_of_next fun word front => ?_
  split
  case h_1 semicolonKind =>
    refine meets_of_skip front (by simp [semicolonKind]) fun after _ => ?_
    exact meets_pure fun _ => .absent semicolonKind
  case h_2 wordKind =>
    refine meets_of_skip front (by simp [wordKind]) fun after reads => ?_
    refine Meets.map ((varDeclaration_sound wordKind (room'.after reads (by simp))).weaken
      ?_)
    exact fun _ _ _ _ _ phrase clean => .declaration (phrase clean)
  case h_3 =>
    refine Meets.map ((expressionStatement_sound room).weaken ?_)
    exact fun _ _ _ _ _ phrase clean => .expression (phrase.2 clean)

theorem moreParameters_sound : ∀ {depth : Nat} {stream : Stream} (count : Nat),
    Room stream 1 depth → (moreParameters depth count).Meets stream
      fun taken added names _ =>
      added = [] → FurtherParameters taken names ∧
        (count ≤ 255 → count + names.length ≤ 255)
  | 0, _, _, room => absurd room.1 (by omega)
  | depth + 1, stream, count, room => by
      rw [moreParameters]
      refine meets_of_accept ?_ ?_
      · intro comma after reads commaKind
        dsimp only
        split
        case isTrue tooMany =>
          refine meets_of_next fun word _ => meets_of_complain fun after' reads' => ?_
          refine meets_of_expect fun name after'' reads'' nameKind => ?_
          have reads := (reads.trans reads').trans reads''
          refine (moreParameters_sound (count + 1) (room.after reads (by simp))).bind ?_
          intro _ _ _ _ _ _
          exact meets_pure fun clean => by simp at clean
        case isFalse few =>
          refine meets_of_expect fun name after' reads' nameKind => ?_
          refine (moreParameters_sound (count + 1)
            (room.after (reads.trans reads') (by simp))).bind ?_
          intro taken added names after'' _ others
          refine meets_pure fun clean => ?_
          simp only [List.append_nil] at clean
          rcases others clean with ⟨others, bound⟩
          simp only [listLimit] at few
          have bound := bound (by omega)
          refine ⟨by simpa using FurtherParameters.more commaKind nameKind others,
            fun _ => ?_⟩
          simp only [List.length_cons]
          omega
      · intro _
        exact meets_pure fun _ => ⟨.none, by simp⟩

theorem parameters_sound (room : Room stream 1 depth) :
    (parameters depth).Meets stream fun taken added names _ =>
      added = [] → Parameters taken names ∧ names.length ≤ 255 := by
  rw [parameters]
  refine meets_of_follows fun word _ => ?_
  split
  · exact meets_pure fun _ => ⟨.none, by simp⟩
  · refine meets_of_expect fun name after reads nameKind => ?_
    have room : Room stream 1 (depth + 1) := room.mono (by omega)
    refine (moreParameters_sound 1 (room.after reads (by simp))).bind ?_
    intro taken added names after' _ others
    refine meets_pure fun clean => ?_
    simp only [List.append_nil] at clean
    rcases others clean with ⟨others, bound⟩
    exact ⟨by simpa using Parameters.some nameKind others,
      by simpa [Nat.add_comm] using bound (by simp)⟩

/-! ## Declarations -/

theorem Ends.of_wholeInput {rest : List Occurrence} (ends : Ends .wholeInput rest)
    (extent : Extent) : Ends extent rest := by
  rcases ends with ⟨token, front, final | ⟨impossible, -⟩⟩
  · exact ⟨token, front, .inl final⟩
  · cases impossible

theorem ended_outcome (extent : Extent) (finishes : stream.Finishes) :
    ∃ answer, ended extent stream = .ok answer stream ∧
      (answer = true ↔ Ends extent stream.rest) := by
  obtain ⟨rest, faults⟩ := stream
  obtain ⟨token, later, rfl⟩ := finishes.front
  cases extent with
  | wholeInput => exact ⟨decide (token.kind = .endOfInput), rfl, by simp [Ends]⟩
  | block =>
      refine ⟨decide (token.kind = Symbol.rightBrace) || decide (token.kind = .endOfInput),
        rfl, ?_⟩
      simp [Ends, or_comm]

theorem delivers_of_ended {α : Type} {extent : Extent} {second : Bool → Reader α}
    {post : List Occurrence → List ReadingFault → α → Stream → Prop}
    (delivers : ∀ answer, (answer = true ↔ Ends extent stream.rest) →
      (second answer).Delivers stream post) :
    (ended extent >>= second).Delivers stream post := by
  intro finishes
  rcases ended_outcome extent finishes with ⟨answer, outcome, meaning⟩
  rw [bind_of_ok outcome rfl]
  exact delivers answer meaning finishes

theorem meets_of_ended {α : Type} {extent : Extent} {second : Bool → Reader α}
    {post : List Occurrence → List ReadingFault → α → Stream → Prop}
    (meets : ∀ answer, (answer = true ↔ Ends extent stream.rest) →
      (second answer).Meets stream post) :
    (ended extent >>= second).Meets stream post := by
  intro finishes
  rcases ended_outcome extent finishes with ⟨answer, outcome, meaning⟩
  rw [bind_of_ok outcome rfl]
  exact meets answer meaning finishes

/-- Tokens are skipped up to an end of input at most, and at least one if there is any
before it. -/
theorem resumption_eq (rest : List Occurrence) :
    ∃ skipped, rest = skipped ++ resumption rest ∧
      (∀ token ∈ skipped, token.kind ≠ .endOfInput) ∧
      (rest ≠ [] → ¬Ends .wholeInput rest → skipped ≠ []) := by
  induction rest with
  | nil => exact ⟨[], rfl, by simp⟩
  | cons token tail induction =>
      rw [resumption]
      by_cases final : token.kind = .endOfInput
      · exact ⟨[], by simp [final], by simp, fun _ unended =>
          absurd ⟨token, rfl, .inl final⟩ unended⟩
      rw [if_neg final]
      split
      · exact ⟨[token], rfl, by simpa using final, by simp⟩
      · rcases induction with ⟨skipped, equation, inside, -⟩
        exact ⟨token :: skipped, by rw [List.cons_append, ← equation],
          by simpa using ⟨final, inside⟩, by simp⟩

theorem resume_delivers :
    resume.Delivers stream fun taken added _ after =>
      (¬Ends .wholeInput stream.rest → taken ≠ []) ∧ added = [] ∧
        after = { stream with rest := resumption stream.rest } := by
  intro finishes
  rcases resumption_eq stream.rest with ⟨skipped, equation, inside, progress⟩
  have reads : stream.Reads { stream with rest := resumption stream.rest } skipped [] :=
    ⟨equation, inside, by simp⟩
  have nonempty : stream.rest ≠ [] := by
    obtain ⟨token, later, front⟩ := finishes.front
    simp [front]
  obtain ⟨token, later, ahead⟩ := (reads.finishes finishes).front
  exact ⟨(), { stream with rest := resumption stream.rest },
    (resume_of_cons ahead).trans (by rw [← ahead]), skipped, [], reads, progress nonempty,
    rfl, rfl⟩

theorem declaration_eq (depth : Nat) (stream : Stream) :
    declaration (depth + 1) stream =
      match wholeDeclaration depth stream with
      | .ok tree after => .ok (some tree) after
      | .error .abandoned after => (resume >>= fun _ => pure none) after
      | .error interruption after => .error interruption after := by
  rw [declaration]
  change EStateM.tryCatch (EStateM.map some (wholeDeclaration depth)) _ stream = _
  unfold EStateM.tryCatch EStateM.map
  cases wholeDeclaration depth stream with
  | ok => rfl
  | error interruption => cases interruption <;> rfl

theorem delivers_declaration
    {middle : List Occurrence → List ReadingFault → Stmt → Stream → Prop}
    {post : List Occurrence → List ReadingFault → Option Stmt → Stream → Prop}
    (meets : (wholeDeclaration depth).Meets stream middle)
    (whole : ∀ taken added tree after, middle taken added tree after →
      post taken added (some tree) after)
    (left : ∀ taken added after, (¬Ends .wholeInput stream.rest → taken ≠ []) →
      added ≠ [] → post taken added none after) :
    (declaration (depth + 1)).Delivers stream post := by
  intro finishes
  have meets := meets finishes
  rw [declaration_eq]
  cases outcome : wholeDeclaration depth stream with
  | ok tree after =>
      rw [outcome] at meets
      rcases meets with ⟨taken, added, reads, holds⟩
      exact ⟨some tree, after, rfl, taken, added, reads, whole _ _ _ _ holds⟩
  | error interruption after =>
      rw [outcome] at meets
      rcases meets with ⟨rfl, taken, added, reads, noted⟩
      rcases resume_delivers (reads.finishes finishes) with
        ⟨_, after', resumed, skipped, unnoted, reads', progress, rfl, -⟩
      refine ⟨none, after', bind_of_ok resumed rfl, taken ++ skipped, added ++ [],
        reads.trans reads', left _ _ _ (fun unended => ?_) (by simpa using noted)⟩
      cases taken with
      | nil =>
          rw [reads.rest, List.nil_append] at unended
          simpa using progress unended
      | cons token taken => simp

theorem declaration_sound (readers : StatementsSound depth)
    (room : Room stream 18 (depth + 1)) :
    (declaration (depth + 1)).Delivers stream fun taken added found _ =>
      (¬Ends .wholeInput stream.rest → taken ≠ []) ∧
        (added = [] → ∃ tree, found = some tree ∧
          Statement .nearestIf .declaration taken tree) :=
  delivers_declaration (readers.wholeDeclaration stream (room.deeper (by omega)))
    (fun _ _ tree _ holds => ⟨fun _ => holds.1, fun clean => ⟨tree, rfl, holds.2 clean⟩⟩)
    (fun _ _ _ progress noted => ⟨progress, fun clean => absurd clean noted⟩)

theorem declarations_sound {extent : Extent} (readers : StatementsSound depth)
    (room : Room stream 19 (depth + 1)) :
    (declarations (depth + 1) extent).Delivers stream fun taken added trees after =>
      Ends extent after.rest ∧ Completes .declarations [] taken added trees after := by
  rw [declarations]
  refine delivers_of_ended fun answer finished => ?_
  split
  case isTrue ended =>
    exact delivers_pure ⟨finished.mp ended, fun _ => .noDeclarations⟩
  case isFalse unended =>
    have unended : ¬Ends .wholeInput stream.rest := fun ends =>
      unended (finished.mpr (ends.of_wholeInput extent))
    apply (readers.declaration _ (room.deeper (by omega))).bind
    rintro taken added found after reads ⟨progress, phrase⟩
    have taken_nonempty := List.length_pos_iff.mpr (progress unended)
    apply (readers.declarations extent after (room.after reads (by omega))).bind
    rintro taken' added' trees after' _ ⟨finished, phrases⟩
    refine delivers_pure ⟨finished, fun clean => ?_⟩
    simp only [List.append_nil, List.append_eq_nil_iff] at clean
    rcases phrase clean.1 with ⟨tree, rfl, first⟩
    simpa using Statement.moreDeclarations first (phrases clean.2)

theorem wholeDeclaration_sound (readers : StatementsSound depth)
    (room : Room stream 17 (depth + 1)) :
    (wholeDeclaration (depth + 1)).Meets stream fun taken added tree after =>
      taken ≠ [] ∧ Completes .declaration [] taken added tree after := by
  rw [wholeDeclaration]
  refine meets_of_next fun word front => ?_
  split
  case h_1 wordKind =>
    refine meets_of_skip front (by simp [wordKind]) fun after reads => ?_
    refine (readers.classDeclaration word after wordKind
      (room.after reads (by simp))).weaken ?_
    exact fun _ _ _ _ _ phrase => ⟨by simp, phrase⟩
  case h_2 wordKind =>
    refine meets_of_skip front (by simp [wordKind]) fun after reads => ?_
    refine Meets.map ((readers.routine .function after
      (room.after reads (by simp))).weaken ?_)
    exact fun _ _ _ _ _ phrase => ⟨by simp, fun clean =>
      .functionDeclaration wordKind (phrase.2 clean)⟩
  case h_3 wordKind =>
    refine meets_of_skip front (by simp [wordKind]) fun after reads => ?_
    refine (varDeclaration_sound wordKind (room.after reads (by simp))).weaken ?_
    exact fun _ _ _ _ _ phrase => ⟨by simp, fun clean => .varDeclaration (phrase clean)⟩
  case h_4 =>
    apply (readers.statement stream (room.deeper (by omega))).weaken
    rintro taken added tree after _ ⟨nonempty, phrase⟩
    refine ⟨nonempty, fun clean => ?_⟩
    rcases phrase clean with ⟨isOpen, phrase, -⟩
    exact .statement phrase

theorem classDeclaration_sound {word : Occurrence} (readers : StatementsSound depth)
    (wordKind : word.kind = Keyword.classWord) (room : Room stream 1 (depth + 1)) :
    (classDeclaration (depth + 1)).Meets stream (Completes .declaration [word]) := by
  rw [classDeclaration]
  refine meets_of_expect fun name after reads nameKind => ?_
  refine superclass_sound.bind ?_
  intro taken added clause after' reads' superclassPhrase
  refine meets_of_expect fun leftBrace after'' reads'' leftBraceKind => ?_
  have reads := (reads.trans reads').trans reads''
  refine (readers.methods after'' (room.after reads (by simp; omega))).bind ?_
  intro taken' added' methods after _ methodsPhrase
  refine meets_of_expect fun rightBrace after' _ rightBraceKind => ?_
  refine meets_pure fun clean => ?_
  simp only [List.append_nil, List.append_eq_nil_iff] at clean
  exact .classDeclaration wordKind nameKind (superclassPhrase clean.1) leftBraceKind
    (methodsPhrase clean.2) rightBraceKind

theorem methods_sound (readers : StatementsSound depth)
    (room : Room stream 2 (depth + 1)) :
    (methods (depth + 1)).Meets stream (Completes .methods []) := by
  rw [methods]
  refine meets_of_ended fun answer _ => ?_
  split
  · exact meets_pure fun _ => .noMethods
  · apply (readers.routine .method _ (room.deeper (by omega))).bind
    rintro taken added method after reads ⟨nonempty, phrase⟩
    have taken_nonempty := List.length_pos_iff.mpr nonempty
    apply (readers.methods after (room.after reads (by omega))).bind
    intro taken' added' methods after' _ phrases
    refine meets_pure fun clean => ?_
    simp only [List.append_nil, List.append_eq_nil_iff] at clean
    simpa using Statement.moreMethods (phrase clean.1) (phrases clean.2)

theorem routine_sound {kind : RoutineKind} (readers : StatementsSound depth)
    (room : Room stream 1 (depth + 1)) :
    (routine (depth + 1) kind).Meets stream fun taken added tree after =>
      taken ≠ [] ∧ Completes .routine [] taken added tree after := by
  rw [routine]
  refine meets_of_expect fun name after reads nameKind => ?_
  refine meets_of_expect fun leftParen after' reads' leftParenKind => ?_
  have reads := reads.trans reads'
  refine (parameters_sound (room.after reads (by simp))).bind ?_
  intro taken added parameters after reads' parametersPhrase
  have reads := reads.trans reads'
  refine meets_of_expect fun rightParen after' reads' rightParenKind => ?_
  have reads := reads.trans reads'
  refine meets_of_expect fun leftBrace after' reads' leftBraceKind => ?_
  have reads := reads.trans reads'
  refine (readers.block leftBrace after' leftBraceKind
    (room.after reads (by simp; omega))).bind ?_
  intro taken' added' body after _ bodyPhrase
  refine meets_pure ⟨by simp, fun clean => ?_⟩
  simp only [List.append_nil, List.append_eq_nil_iff] at clean
  rcases parametersPhrase clean.1 with ⟨parametersPhrase, bound⟩
  simpa using Statement.routine nameKind leftParenKind parametersPhrase bound
    rightParenKind (bodyPhrase clean.2)

theorem block_sound {leftBrace : Occurrence} (readers : StatementsSound depth)
    (leftBraceKind : leftBrace.kind = Symbol.leftBrace)
    (room : Room stream 20 (depth + 1)) :
    (block (depth + 1)).Meets stream (Completes .block [leftBrace]) := by
  rw [block]
  apply (readers.declarations .block stream (room.deeper (by omega))).meets.bind
  rintro taken added statements after _ ⟨-, phrase⟩
  refine meets_of_expect fun rightBrace after' _ rightBraceKind => ?_
  refine meets_pure fun clean => ?_
  simp only [List.append_nil] at clean
  exact .block leftBraceKind (phrase clean) rightBraceKind

/-! ## Statements -/

theorem statement_sound (readers : StatementsSound depth)
    (room : Room stream 16 (depth + 1)) :
    (statement (depth + 1)).Meets stream fun taken added tree after =>
      taken ≠ [] ∧ CompletesStatement [] taken added tree after := by
  rw [statement]
  refine meets_of_next fun word front => ?_
  split
  case h_1 wordKind =>
    refine meets_of_skip front (by simp [wordKind]) fun after reads => ?_
    refine (readers.forStatement word after wordKind
      (room.after reads (by simp))).weaken ?_
    exact fun _ _ _ _ _ phrase => ⟨by simp, phrase⟩
  case h_2 wordKind =>
    refine meets_of_skip front (by simp [wordKind]) fun after reads => ?_
    refine (readers.ifStatement word after wordKind
      (room.after reads (by simp))).weaken ?_
    exact fun _ _ _ _ _ phrase => ⟨by simp, phrase⟩
  case h_3 wordKind =>
    refine meets_of_skip front (by simp [wordKind]) fun after reads => ?_
    refine (printStatement_sound wordKind (room.after reads (by simp))).weaken ?_
    exact fun _ _ _ _ _ phrase => ⟨by simp, phrase⟩
  case h_4 wordKind =>
    refine meets_of_skip front (by simp [wordKind]) fun after reads => ?_
    refine (returnStatement_sound wordKind (room.after reads (by simp))).weaken ?_
    exact fun _ _ _ _ _ phrase => ⟨by simp, phrase⟩
  case h_5 wordKind =>
    refine meets_of_skip front (by simp [wordKind]) fun after reads => ?_
    refine (readers.whileStatement word after wordKind
      (room.after reads (by simp))).weaken ?_
    exact fun _ _ _ _ _ phrase => ⟨by simp, phrase⟩
  case h_6 leftBraceKind =>
    refine meets_of_skip front (by simp [leftBraceKind]) fun after reads => ?_
    refine Meets.map ((readers.block word after leftBraceKind
      (room.after reads (by simp))).weaken ?_)
    exact fun _ _ _ _ _ phrase => ⟨by simp, fun clean =>
      ⟨false, .blockStatement (phrase clean), by simp⟩⟩
  case h_7 =>
    apply (expressionStatement_sound (room.deeper (by omega))).weaken
    exact fun _ _ _ _ _ phrase => ⟨phrase.1, fun clean =>
      ⟨false, .expressionStatement (phrase.2 clean), by simp⟩⟩

theorem whileStatement_sound {word : Occurrence} (readers : StatementsSound depth)
    (wordKind : word.kind = Keyword.whileWord) (room : Room stream 1 (depth + 1)) :
    (whileStatement (depth + 1)).Meets stream (CompletesStatement [word]) := by
  rw [whileStatement]
  refine meets_of_expect fun leftParen after reads leftParenKind => ?_
  refine ((expressionsSound depth).expression after (room.after reads (by simp))).bind ?_
  rintro taken added condition after' reads' ⟨-, conditionPhrase⟩
  have reads := reads.trans reads'
  refine meets_of_expect fun rightParen after reads' rightParenKind => ?_
  refine (readers.statement after (room.after (reads.trans reads') (by simp; omega))).bind
    ?_
  rintro taken' added' body after' _ ⟨-, bodyPhrase⟩
  refine meets_pure fun clean => ?_
  simp only [List.append_nil, List.append_eq_nil_iff] at clean
  rcases bodyPhrase clean.2 with ⟨isOpen, bodyPhrase, noElse⟩
  refine ⟨isOpen, ?_, noElse⟩
  simpa using Statement.whileStatement wordKind leftParenKind (conditionPhrase clean.1)
    rightParenKind bodyPhrase

theorem forLoop_eq_forTree (initializer : Option Stmt) (condition increment : Option Expr)
    (body : Stmt) :
    Stmt.forLoop initializer condition increment body =
      forTree condition increment body initializer := by
  cases initializer <;> cases increment <;> rfl

theorem forStatement_sound {word : Occurrence} (readers : StatementsSound depth)
    (wordKind : word.kind = Keyword.forWord) (room : Room stream 1 (depth + 1)) :
    (forStatement (depth + 1)).Meets stream (CompletesStatement [word]) := by
  rw [forStatement]
  refine meets_of_expect fun leftParen after reads leftParenKind => ?_
  refine (forInitializer_sound (room.after reads (by simp))).bind ?_
  intro taken₁ added₁ initializer after reads' initializerPhrase
  have reads := reads.trans reads'
  apply (expressionUnless_sound _ (room.after reads (by simp; omega))).bind
  intro taken₂ added₂ condition after reads' conditionPhrase
  have reads := reads.trans reads'
  refine meets_of_expect fun semicolon after reads' semicolonKind => ?_
  have reads := reads.trans reads'
  refine (expressionUnless_sound _ (room.after reads (by simp; omega))).bind ?_
  intro taken₃ added₃ increment after reads' incrementPhrase
  have reads := reads.trans reads'
  refine meets_of_expect fun rightParen after reads' rightParenKind => ?_
  refine (readers.statement after (room.after (reads.trans reads') (by simp; omega))).bind
    ?_
  rintro taken₄ added₄ body after _ ⟨-, bodyPhrase⟩
  refine meets_pure fun clean => ?_
  simp only [List.append_nil, List.append_eq_nil_iff] at clean
  rcases bodyPhrase clean.2.2.2 with ⟨isOpen, bodyPhrase, noElse⟩
  refine ⟨isOpen, ?_, noElse⟩
  have phrase := Statement.forStatement wordKind leftParenKind (initializerPhrase clean.1)
    (conditionPhrase clean.2.1) semicolonKind (incrementPhrase clean.2.2.1) rightParenKind
    bodyPhrase
  simpa [forLoop_eq_forTree] using phrase

theorem ifStatement_sound {word : Occurrence} (readers : StatementsSound depth)
    (wordKind : word.kind = Keyword.ifWord) (room : Room stream 1 (depth + 1)) :
    (ifStatement (depth + 1)).Meets stream (CompletesStatement [word]) := by
  rw [ifStatement]
  refine meets_of_expect fun leftParen after reads leftParenKind => ?_
  refine ((expressionsSound depth).expression after (room.after reads (by simp))).bind ?_
  rintro taken₁ added₁ condition after reads' ⟨-, conditionPhrase⟩
  have reads := reads.trans reads'
  refine meets_of_expect fun rightParen after reads' rightParenKind => ?_
  have reads := reads.trans reads'
  refine (readers.statement after (room.after reads (by simp; omega))).bind ?_
  rintro taken₂ added₂ thenBranch after reads' ⟨-, thenPhrase⟩
  have reads := reads.trans reads'
  refine meets_of_accept ?_ ?_
  · intro elseWord after elseReads elseKind
    simp only [bind_map_left]
    refine (readers.statement after
      (room.after (reads.trans elseReads) (by simp; omega))).bind ?_
    rintro taken₃ added₃ elseBranch after _ ⟨-, elsePhrase⟩
    refine meets_pure fun clean => ?_
    simp only [List.append_nil, List.append_eq_nil_iff] at clean
    rcases thenPhrase clean.2.1 with ⟨thenOpen, thenPhrase, noElse⟩
    rcases elsePhrase clean.2.2 with ⟨isOpen, elsePhrase, noElse'⟩
    -- The branch before this `else` cannot be open, or no `else` would have followed it.
    have closed : thenOpen = false := by
      rw [← Bool.not_eq_true]
      intro isOpen
      exact noElse isOpen elseWord (by simp [elseReads.rest]) elseKind
    refine ⟨isOpen, ?_, noElse'⟩
    simpa using Statement.ifElseStatement wordKind leftParenKind (conditionPhrase clean.1)
      rightParenKind thenPhrase (fun _ => closed) elseKind elsePhrase
  · rintro ⟨token, front, different⟩
    have noElse : NoElse after.rest := fun other member =>
      Option.mem_unique front member ▸ different
    simp only [pure_bind]
    refine meets_pure fun clean => ?_
    simp only [List.append_nil, List.append_eq_nil_iff] at clean
    rcases thenPhrase clean.2 with ⟨_, thenPhrase, -⟩
    refine ⟨true, ?_, fun _ => noElse⟩
    simpa using Statement.ifStatement wordKind leftParenKind (conditionPhrase clean.1)
      rightParenKind thenPhrase

theorem statementsSound : ∀ depth, StatementsSound depth
  | 0 => by
      constructor <;> intros <;> rename_i room <;> exact absurd room.1 (by omega)
  | depth + 1 =>
      have readers := statementsSound depth
      { declarations := fun _ _ room => declarations_sound readers room
        declaration := fun _ room => declaration_sound readers room
        wholeDeclaration := fun _ room => wholeDeclaration_sound readers room
        classDeclaration :=
          fun _ _ wordKind room => classDeclaration_sound readers wordKind room
        methods := fun _ room => methods_sound readers room
        routine := fun _ _ room => routine_sound readers room
        block := fun _ _ leftBraceKind room => block_sound readers leftBraceKind room
        statement := fun _ room => statement_sound readers room
        forStatement := fun _ _ wordKind room => forStatement_sound readers wordKind room
        ifStatement := fun _ _ wordKind room => ifStatement_sound readers wordKind room
        whileStatement :=
          fun _ _ wordKind room => whileStatement_sound readers wordKind room }

end LoxLang.Reader
