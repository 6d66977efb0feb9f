import LoxLang.Proofs.Reading.ExpressionCompleteness
import LoxLang.Proofs.Reading.StatementSoundness

/-! # Derivable statements are read

A phrase in which every `else` belongs to the nearest `if` is read to its end. What it is
to be read mentions the first token as well, because the readers choose by it which rule
to follow.
-/

namespace LoxLang.Reader

open Grammar

variable {α : Type}

/-! ## Parts of statements -/

def Anything (_ : List Occurrence) : Prop := True

def Next (kind : Kind) (rest : List Occurrence) : Prop :=
  ∃ token later, rest = token :: later ∧ token.kind = kind

def NextIsNoElse (rest : List Occurrence) : Prop :=
  ∃ token ∈ rest.head?, token.kind ≠ Keyword.elseWord

theorem Next.noElse {kind : Kind} {rest : List Occurrence} (next : Next kind rest)
    (different : kind ≠ Keyword.elseWord) : NextIsNoElse rest := by
  rcases next with ⟨token, later, rfl, same⟩
  exact ⟨token, rfl, same ▸ different⟩

theorem Next.stops {kind : Kind} {rest : List Occurrence} (next : Next kind rest)
    (loose : tightness kind = 0) : Stops 1 rest := by
  rcases next with ⟨token, later, rfl, same⟩
  exact .cons (by rw [same, loose]; decide)

theorem takes_expressionUnless {kind : Kind} {tokens : List Occurrence}
    {found : Option Expr} (loose : tightness kind = 0)
    (foreign : startsExpression kind = false) (phrase : OptionalExpression tokens found) :
    Takes (expressionUnless kind) 15 (Next kind) tokens found := by
  intro rest faults depth next room
  cases phrase with
  | absent =>
      rcases next with ⟨token, later, rfl, same⟩
      apply bind_of_ok follows_front
      rw [decide_eq_true same]
      rfl
  | present phrase =>
      have outcome :=
        read_of_expression phrase rest faults depth (next.stops loose) room
      rcases phrase.starts rfl with ⟨first, others, rfl, starts⟩
      have different : first.kind ≠ kind := fun same => by simp [same, foreign] at starts
      apply bind_of_ok follows_front
      rw [decide_eq_false different]
      exact bind_of_ok outcome rfl

theorem takes_expressionStatement {tokens : List Occurrence} {tree : Stmt}
    (phrase : ExpressionStatement tokens tree) :
    Takes expressionStatement 15 Anything tokens tree := by
  rcases phrase with ⟨phrase, semicolonKind⟩
  intro rest faults depth _ room
  simp only [List.length_append, List.length_cons, List.length_nil] at room
  simp only [List.append_assoc, List.cons_append, List.nil_append]
  refine bind_of_ok (read_of_expression phrase _ faults depth
    (.cons (by rw [semicolonKind]; decide)) (by simp only [List.length_cons]; omega)) ?_
  exact bind_of_ok (expect_taken semicolonKind) rfl

theorem takes_varDeclaration {tokens : List Occurrence} {tree : Stmt}
    (phrase : VarDeclaration tokens tree) :
    ∃ word others, tokens = word :: others ∧ word.kind = Keyword.varWord ∧
      Takes varDeclaration 15 Anything others tree := by
  rcases phrase with ⟨wordKind, nameKind, initializerPhrase, semicolonKind⟩
  refine ⟨_, _, rfl, wordKind, ?_⟩
  intro rest faults depth _ room
  simp only [List.length_append, List.length_cons, List.length_nil] at room
  simp only [List.append_assoc, List.cons_append, List.nil_append]
  apply bind_of_ok (expect_taken nameKind)
  cases initializerPhrase with
  | absent =>
      apply bind_of_ok (accept_refused (by simp [semicolonKind]))
      apply bind_of_ok rfl
      exact bind_of_ok (expect_taken semicolonKind) rfl
  | present equalKind phrase =>
      simp only [List.length_cons] at room
      apply bind_of_ok (accept_taken equalKind)
      refine bind_of_ok (bind_of_ok (read_of_expression phrase _ faults depth
        (.cons (by rw [semicolonKind]; decide)) (by simp only [List.length_cons]; omega))
          rfl) ?_
      exact bind_of_ok (expect_taken semicolonKind) rfl

theorem takes_superclass {tokens : List Occurrence} {found : Option Occurrence}
    (phrase : SuperclassClause tokens found) :
    Takes (fun _ => superclass) 0 (Next Symbol.leftBrace) tokens found := by
  intro rest faults depth next _
  cases phrase with
  | absent =>
      rcases next with ⟨token, later, rfl, same⟩
      exact bind_of_ok (accept_refused (by simp [same])) rfl
  | present lessKind nameKind =>
      apply bind_of_ok (accept_taken lessKind)
      exact bind_of_ok (expect_taken nameKind) rfl

theorem takes_moreParameters {tokens names : List Occurrence}
    (phrase : FurtherParameters tokens names) :
    ∀ count, count + names.length ≤ 255 →
      Takes (moreParameters · count) 1 (Next Symbol.rightParen) tokens names := by
  induction phrase with
  | none =>
      intro count _ rest faults depth next room
      rcases next with ⟨token, later, rfl, same⟩
      rcases Nat.exists_eq_add_of_le' (by omega : 1 ≤ depth) with ⟨depth, rfl⟩
      dsimp only
      rw [moreParameters]
      exact bind_of_ok (accept_refused (by simp [same])) rfl
  | more commaKind nameKind _ othersTaken =>
      intro count bound rest faults depth next room
      simp only [List.length_cons] at bound room
      rcases Nat.exists_eq_add_of_le' (by omega : 1 ≤ depth) with ⟨depth, rfl⟩
      have few : ¬ listLimit ≤ count := by simp only [listLimit]; omega
      simp only [List.cons_append]
      rw [moreParameters]
      apply bind_of_ok (accept_taken commaKind)
      simp only [few, if_false]
      apply bind_of_ok (expect_taken nameKind)
      exact bind_of_ok (othersTaken (count + 1) (by omega) rest faults depth next
        (by omega)) rfl

theorem takes_parameters {tokens names : List Occurrence}
    (phrase : Parameters tokens names)
    (bound : names.length ≤ 255) :
    Takes parameters 1 (Next Symbol.rightParen) tokens names := by
  intro rest faults depth next room
  cases phrase with
  | none =>
      rcases next with ⟨token, later, rfl, same⟩
      apply bind_of_ok follows_front
      rw [decide_eq_true same]
      rfl
  | some nameKind others =>
      simp only [List.length_cons] at bound room
      apply bind_of_ok follows_front
      rw [decide_eq_false (by simp [nameKind])]
      apply bind_of_ok (expect_taken nameKind)
      exact bind_of_ok (takes_moreParameters others 1 (by omega) rest faults depth
        next (by omega)) rfl

theorem takes_forInitializer {tokens : List Occurrence} {tree : Option Stmt}
    (phrase : ForInitializer tokens tree) :
    Takes forInitializer 15 Anything tokens tree := by
  intro rest faults depth _ room
  cases phrase with
  | absent kind =>
      apply bind_of_ok next_front
      rw [kind]
      exact bind_of_ok (skip_front (by simp [kind])) rfl
  | declaration phrase =>
      rcases takes_varDeclaration phrase with ⟨word, others, rfl, wordKind, taken⟩
      simp only [List.length_cons] at room
      apply bind_of_ok next_front
      rw [wordKind]
      apply bind_of_ok (skip_front (by simp [wordKind]))
      exact bind_of_ok (taken rest faults depth trivial (by omega)) rfl
  | expression phrase =>
      have outcome :=
        takes_expressionStatement phrase rest faults depth trivial room
      rcases phrase with ⟨phrase, _⟩
      rcases phrase.starts rfl with ⟨first, others, rfl, starts⟩
      apply bind_of_ok next_front
      refine (congrFun (?_ : _ = some <$> expressionStatement depth) _).trans
        (bind_of_ok outcome rfl)
      split
      case h_1 kind => simp [kind, startsExpression] at starts
      case h_2 kind => simp [kind, startsExpression] at starts
      case h_3 => rfl

/-! ## What it is to be read -/

def Extent.close : Extent → Kind
  | wholeInput => .endOfInput
  | block => Symbol.rightBrace

def Begins (excluded : List Kind) (tokens : List Occurrence) : Prop :=
  ∃ first others, tokens = first :: others ∧ first.kind ∉ excluded

def closingKinds : List Kind := [Keyword.elseWord, Symbol.rightBrace, .endOfInput]

def nonStatementKinds : List Kind :=
  closingKinds ++ [(Keyword.classWord : Kind), Keyword.funWord, Keyword.varWord]

def IsReadStatement : (phrase : StatementPhrase) → List Occurrence → phrase.Tree → Prop
  | .declarations => fun tokens trees =>
      NoElse tokens ∧
        ∀ extent, Takes (declarations · extent) 19 (Next extent.close) tokens trees
  | .declaration => fun tokens tree =>
      Begins closingKinds tokens ∧ Takes declaration 18 NextIsNoElse tokens (some tree)
  | .statement isOpen => fun tokens tree =>
      Begins nonStatementKinds tokens ∧
        Takes statement 16 (fun rest => isOpen → NextIsNoElse rest) tokens tree
  | .routine => fun tokens tree =>
      Begins closingKinds tokens ∧ ∀ kind, Takes (routine · kind) 1 Anything tokens tree
  | .methods => Takes methods 2 (Next Symbol.rightBrace)
  | .block => fun tokens trees =>
      ∃ leftBrace inner, tokens = leftBrace :: inner ∧ leftBrace.kind = Symbol.leftBrace ∧
        Takes block 20 Anything inner trees

theorem Begins.of_kind {excluded : List Kind} {first : Occurrence}
    {others : List Occurrence} {kind : Kind} (same : first.kind = kind)
    (included : kind ∉ excluded) :
    Begins excluded (first :: others) := ⟨first, others, rfl, same ▸ included⟩

theorem Begins.noElse {tokens : List Occurrence} (begins : Begins closingKinds tokens) :
    NoElse tokens := by
  rcases begins with ⟨first, others, rfl, different⟩
  intro token member
  obtain rfl : first = token := by simpa using member
  exact fun same => different (by rw [same]; decide)

theorem Begins.append {excluded : List Kind} {tokens others : List Occurrence}
    (begins : Begins excluded tokens) : Begins excluded (tokens ++ others) := by
  rcases begins with ⟨first, remaining, rfl, different⟩
  exact ⟨first, remaining ++ others, rfl, different⟩

theorem Extent.close_ne_else (extent : Extent) : extent.close ≠ Keyword.elseWord := by
  cases extent <;> decide

theorem NoElse.append {tokens rest : List Occurrence} (first : NoElse tokens)
    (second : NoElse rest) : NoElse (tokens ++ rest) := by
  cases tokens with
  | nil => exact second
  | cons token others => simpa [NoElse] using first

theorem NoElse.before {tokens rest : List Occurrence} (first : NoElse tokens)
    (second : NextIsNoElse rest) : NextIsNoElse (tokens ++ rest) := by
  cases tokens with
  | nil => exact second
  | cons token others => exact ⟨token, rfl, first token rfl⟩

/-! ## Declarations -/

section Ended

variable {tokens : List Occurrence} {faults : Array ReadingFault}

theorem ended_of_next {extent : Extent} (next : Next extent.close tokens) :
    ended extent ⟨tokens, faults⟩ = .ok true ⟨tokens, faults⟩ := by
  rcases next with ⟨token, later, rfl, same⟩
  cases extent with
  | wholeInput =>
      have final : token.kind = .endOfInput := same
      exact follows_front.trans (by rw [decide_eq_true final])
  | block =>
      have closing : token.kind = Symbol.rightBrace := same
      apply bind_of_ok follows_front
      rw [decide_eq_true closing]
      rfl

theorem ended_of_begins {extent : Extent} (begins : Begins closingKinds tokens) :
    ended extent ⟨tokens, faults⟩ = .ok false ⟨tokens, faults⟩ := by
  rcases begins with ⟨first, others, rfl, different⟩
  have inside : first.kind ≠ .endOfInput := fun same => different (by rw [same]; decide)
  cases extent with
  | wholeInput =>
      exact follows_front.trans (by rw [decide_eq_false inside])
  | block =>
      have unclosed : first.kind ≠ Symbol.rightBrace := fun same =>
        different (by rw [same]; decide)
      apply bind_of_ok follows_front
      rw [decide_eq_false unclosed]
      apply bind_of_ok follows_front
      rw [decide_eq_false inside]
      rfl

end Ended

theorem read_noDeclarations : IsReadStatement .declarations [] [] := by
  refine ⟨by simp [NoElse], ?_⟩
  intro extent rest faults depth next room
  rcases Nat.exists_eq_add_of_le' (by omega : 1 ≤ depth) with ⟨depth, rfl⟩
  dsimp only
  rw [declarations]
  exact bind_of_ok (ended_of_next next) rfl

theorem read_moreDeclarations {tokens others : List Occurrence} {tree : Stmt}
    {trees : List Stmt} (firstRead : IsReadStatement .declaration tokens tree)
    (restRead : IsReadStatement .declarations others trees) :
    IsReadStatement .declarations (tokens ++ others) (tree :: trees) := by
  rcases firstRead with ⟨begins, firstTaken⟩
  rcases restRead with ⟨noElse, restTaken⟩
  refine ⟨begins.append.noElse, ?_⟩
  intro extent rest faults depth next room
  have nonempty : 0 < tokens.length := by
    rcases begins with ⟨first, others, rfl, -⟩
    simp
  simp only [List.length_append] at room
  rcases Nat.exists_eq_add_of_le' (by omega : 1 ≤ depth) with ⟨depth, rfl⟩
  simp only [List.append_assoc]
  rw [declarations]
  apply bind_of_ok (ended_of_begins begins.append)
  refine bind_of_ok (firstTaken _ faults depth (noElse.before
    (next.noElse extent.close_ne_else))
    (by simp only [List.length_append]; omega)) ?_
  exact bind_of_ok (restTaken extent rest faults depth next (by omega)) rfl

theorem takes_declaration {follow : List Occurrence → Prop} {tokens : List Occurrence}
    {tree : Stmt} (taken : Takes wholeDeclaration 17 follow tokens tree) :
    Takes declaration 18 follow tokens (some tree) := by
  intro rest faults depth follows room
  rcases Nat.exists_eq_add_of_le' (by omega : 1 ≤ depth) with ⟨depth, rfl⟩
  have outcome := taken rest faults depth follows (by omega)
  rw [declaration_eq, outcome]

theorem read_statement {isOpen : Bool} {tokens : List Occurrence} {tree : Stmt}
    (read : IsReadStatement (.statement isOpen) tokens tree) :
    IsReadStatement .declaration tokens tree := by
  rcases read with ⟨⟨first, others, rfl, different⟩, taken⟩
  refine ⟨⟨first, others, rfl, fun member => different (List.mem_append_left _ member)⟩,
    ?_⟩
  apply takes_declaration
  intro rest faults depth noElse room
  rcases Nat.exists_eq_add_of_le' (by omega : 1 ≤ depth) with ⟨depth, rfl⟩
  rw [wholeDeclaration]
  apply bind_of_ok next_front
  refine (congrFun (?_ : _ = statement depth) _).trans
    (taken rest faults depth (fun _ => noElse) (by omega))
  split
  case h_1 kind => exact absurd (by rw [kind]; decide) different
  case h_2 kind => exact absurd (by rw [kind]; decide) different
  case h_3 kind => exact absurd (by rw [kind]; decide) different
  case h_4 => rfl

theorem read_varDeclaration {tokens : List Occurrence} {tree : Stmt}
    (phrase : VarDeclaration tokens tree) : IsReadStatement .declaration tokens tree := by
  rcases takes_varDeclaration phrase with ⟨word, others, rfl, wordKind, taken⟩
  refine ⟨.of_kind wordKind (by decide), takes_declaration ?_⟩
  intro rest faults depth _ room
  simp only [List.length_cons] at room
  rcases Nat.exists_eq_add_of_le' (by omega : 1 ≤ depth) with ⟨depth, rfl⟩
  rw [wholeDeclaration]
  apply bind_of_ok next_front
  rw [wordKind]
  apply bind_of_ok (skip_front (by simp [wordKind]))
  exact taken rest faults depth trivial (by omega)

theorem read_functionDeclaration {word : Occurrence} {tokens : List Occurrence}
    {routine : Routine} (wordKind : word.kind = Keyword.funWord)
    (read : IsReadStatement .routine tokens routine) :
    IsReadStatement .declaration (word :: tokens) (.function routine) := by
  refine ⟨.of_kind wordKind (by decide), takes_declaration ?_⟩
  intro rest faults depth _ room
  simp only [List.length_cons] at room
  rcases Nat.exists_eq_add_of_le' (by omega : 1 ≤ depth) with ⟨depth, rfl⟩
  rw [wholeDeclaration]
  apply bind_of_ok next_front
  rw [wordKind]
  apply bind_of_ok (skip_front (by simp [wordKind]))
  exact bind_of_ok (read.2 .function rest faults depth trivial (by omega)) rfl

theorem read_classDeclaration {word name leftBrace rightBrace : Occurrence}
    {clause tokens : List Occurrence} {superclass : Option Occurrence}
    {methods : List Routine} (wordKind : word.kind = Keyword.classWord)
    (nameKind : name.kind = .identifier)
    (superclassPhrase : SuperclassClause clause superclass)
    (leftBraceKind : leftBrace.kind = Symbol.leftBrace)
    (methodsRead : IsReadStatement .methods tokens methods)
    (rightBraceKind : rightBrace.kind = Symbol.rightBrace) :
    IsReadStatement .declaration
      (word :: name :: (clause ++ leftBrace :: (tokens ++ [rightBrace])))
      (.classDecl name superclass methods) := by
  refine ⟨.of_kind wordKind (by decide), takes_declaration ?_⟩
  intro rest faults depth _ room
  simp only [List.length_append, List.length_cons, List.length_nil] at room
  rcases Nat.exists_eq_add_of_le' (by omega : 2 ≤ depth) with ⟨depth, rfl⟩
  simp only [List.append_assoc, List.cons_append, List.nil_append]
  rw [wholeDeclaration]
  apply bind_of_ok next_front
  rw [wordKind]
  apply bind_of_ok (skip_front (by simp [wordKind]))
  rw [classDeclaration]
  apply bind_of_ok (expect_taken nameKind)
  refine bind_of_ok (takes_superclass superclassPhrase _ faults
    (32 * (clause.length + (leftBrace :: (tokens ++ rightBrace :: rest)).length))
    ⟨_, _, rfl, leftBraceKind⟩ (Nat.le_refl _)) ?_
  apply bind_of_ok (expect_taken leftBraceKind)
  refine bind_of_ok (methodsRead _ faults depth ⟨_, _, rfl, rightBraceKind⟩
    (by simp only [List.length_cons]; omega)) ?_
  exact bind_of_ok (expect_taken rightBraceKind) rfl

theorem read_noMethods : IsReadStatement .methods [] [] := by
  intro rest faults depth next room
  rcases Nat.exists_eq_add_of_le' (by omega : 1 ≤ depth) with ⟨depth, rfl⟩
  rw [methods]
  exact bind_of_ok (ended_of_next next) rfl

theorem read_moreMethods {tokens others : List Occurrence} {method : Routine}
    {list : List Routine} (firstRead : IsReadStatement .routine tokens method)
    (restRead : IsReadStatement .methods others list) :
    IsReadStatement .methods (tokens ++ others) (method :: list) := by
  rcases firstRead with ⟨begins, firstTaken⟩
  intro rest faults depth next room
  have nonempty : 0 < tokens.length := by
    rcases begins with ⟨first, others, rfl, -⟩
    simp
  simp only [List.length_append] at room
  rcases Nat.exists_eq_add_of_le' (by omega : 1 ≤ depth) with ⟨depth, rfl⟩
  simp only [List.append_assoc]
  rw [methods]
  apply bind_of_ok (ended_of_begins begins.append)
  refine bind_of_ok (firstTaken .method _ faults depth trivial
    (by simp only [List.length_append]; omega)) ?_
  exact bind_of_ok (restRead rest faults depth next (by omega)) rfl

theorem read_routine {name leftParen rightParen : Occurrence}
    {parameterTokens parameters tokens : List Occurrence} {body : List Stmt}
    (nameKind : name.kind = .identifier)
    (leftParenKind : leftParen.kind = Symbol.leftParen)
    (parametersPhrase : Parameters parameterTokens parameters)
    (bound : parameters.length ≤ 255)
    (rightParenKind : rightParen.kind = Symbol.rightParen)
    (bodyRead : IsReadStatement .block tokens body) :
    IsReadStatement .routine (name :: leftParen ::
      (parameterTokens ++ rightParen :: tokens))
      (.mk name parameters body) := by
  rcases bodyRead with ⟨leftBrace, inner, rfl, leftBraceKind, bodyTaken⟩
  refine ⟨.of_kind nameKind (by decide), ?_⟩
  intro kind rest faults depth _ room
  simp only [List.length_append, List.length_cons] at room
  rcases Nat.exists_eq_add_of_le' (by omega : 1 ≤ depth) with ⟨depth, rfl⟩
  simp only [List.append_assoc, List.cons_append]
  rw [routine]
  apply bind_of_ok (expect_taken nameKind)
  apply bind_of_ok (expect_taken leftParenKind)
  refine bind_of_ok (takes_parameters parametersPhrase bound _ faults depth
    ⟨_, _, rfl, rightParenKind⟩ (by simp only [List.length_append, List.length_cons]; omega)) ?_
  apply bind_of_ok (expect_taken rightParenKind)
  apply bind_of_ok (expect_taken leftBraceKind)
  exact bind_of_ok (bodyTaken rest faults depth trivial (by omega)) rfl

theorem read_block {leftBrace rightBrace : Occurrence} {tokens : List Occurrence}
    {statements : List Stmt} (leftBraceKind : leftBrace.kind = Symbol.leftBrace)
    (read : IsReadStatement .declarations tokens statements)
    (rightBraceKind : rightBrace.kind = Symbol.rightBrace) :
    IsReadStatement .block (leftBrace :: (tokens ++ [rightBrace])) statements := by
  refine ⟨leftBrace, _, rfl, leftBraceKind, ?_⟩
  intro rest faults depth _ room
  simp only [List.length_append, List.length_cons, List.length_nil] at room
  rcases Nat.exists_eq_add_of_le' (by omega : 1 ≤ depth) with ⟨depth, rfl⟩
  simp only [List.append_assoc, List.cons_append, List.nil_append]
  rw [block]
  refine bind_of_ok (read.2 .block _ faults depth ⟨_, _, rfl, rightBraceKind⟩
    (by simp only [List.length_cons]; omega)) ?_
  exact bind_of_ok (expect_taken rightBraceKind) rfl

/-! ## Statements -/

theorem read_expressionStatement {tokens : List Occurrence} {tree : Stmt}
    (phrase : ExpressionStatement tokens tree) :
    IsReadStatement (.statement false) tokens tree := by
  have taken := takes_expressionStatement phrase
  rcases phrase with ⟨phrase, _⟩
  rcases phrase.starts rfl with ⟨first, others, rfl, starts⟩
  refine ⟨⟨first, _, rfl, fun member => ?_⟩, ?_⟩
  · simp only [nonStatementKinds, closingKinds, List.mem_append, List.mem_cons,
      List.not_mem_nil, or_false] at member
    rcases member with (kind | kind | kind) | kind | kind | kind <;>
      simp [kind, startsExpression] at starts
  intro rest faults depth _ room
  rcases Nat.exists_eq_add_of_le' (by omega : 1 ≤ depth) with ⟨depth, rfl⟩
  rw [statement]
  apply bind_of_ok next_front
  refine (congrFun (?_ : _ = expressionStatement depth) _).trans
    (taken rest faults depth trivial (by omega))
  split
  case h_7 => rfl
  all_goals
    rename_i kind
    simp [kind, startsExpression] at starts

theorem read_blockStatement {tokens : List Occurrence} {statements : List Stmt}
    (read : IsReadStatement .block tokens statements) :
    IsReadStatement (.statement false) tokens (.block statements) := by
  rcases read with ⟨leftBrace, inner, rfl, leftBraceKind, taken⟩
  refine ⟨.of_kind leftBraceKind (by decide), ?_⟩
  intro rest faults depth _ room
  simp only [List.length_cons] at room
  rcases Nat.exists_eq_add_of_le' (by omega : 1 ≤ depth) with ⟨depth, rfl⟩
  rw [statement]
  apply bind_of_ok next_front
  rw [leftBraceKind]
  apply bind_of_ok (skip_front (by simp [leftBraceKind]))
  exact bind_of_ok (taken rest faults depth trivial (by omega)) rfl

theorem read_printStatement {word semicolon : Occurrence} {tokens : List Occurrence}
    {value : Expr} (wordKind : word.kind = Keyword.printWord)
    (valuePhrase : Expression .expression tokens value)
    (semicolonKind : semicolon.kind = Symbol.semicolon) :
    IsReadStatement (.statement false) (word :: (tokens ++ [semicolon]))
      (.print value) := by
  refine ⟨.of_kind wordKind (by decide), ?_⟩
  intro rest faults depth _ room
  simp only [List.length_append, List.length_cons, List.length_nil] at room
  rcases Nat.exists_eq_add_of_le' (by omega : 1 ≤ depth) with ⟨depth, rfl⟩
  simp only [List.append_assoc, List.cons_append, List.nil_append]
  rw [statement]
  apply bind_of_ok next_front
  rw [wordKind]
  apply bind_of_ok (skip_front (by simp [wordKind]))
  refine bind_of_ok (read_of_expression valuePhrase _ faults depth
    (.cons (by rw [semicolonKind]; decide)) (by simp only [List.length_cons]; omega)) ?_
  exact bind_of_ok (expect_taken semicolonKind) rfl

theorem read_returnStatement {word semicolon : Occurrence} {tokens : List Occurrence}
    {value : Option Expr} (wordKind : word.kind = Keyword.returnWord)
    (valuePhrase : OptionalExpression tokens value)
    (semicolonKind : semicolon.kind = Symbol.semicolon) :
    IsReadStatement (.statement false) (word :: (tokens ++ [semicolon]))
      (.returns word value) := by
  refine ⟨.of_kind wordKind (by decide), ?_⟩
  intro rest faults depth _ room
  simp only [List.length_append, List.length_cons, List.length_nil] at room
  rcases Nat.exists_eq_add_of_le' (by omega : 1 ≤ depth) with ⟨depth, rfl⟩
  simp only [List.append_assoc, List.cons_append, List.nil_append]
  rw [statement]
  apply bind_of_ok next_front
  rw [wordKind]
  apply bind_of_ok (skip_front (by simp [wordKind]))
  refine bind_of_ok (takes_expressionUnless rfl rfl valuePhrase _ faults depth
    ⟨_, _, rfl, semicolonKind⟩ (by simp only [List.length_cons]; omega)) ?_
  exact bind_of_ok (expect_taken semicolonKind) rfl

section Nested

variable {word leftParen rightParen : Occurrence} {isOpen : Bool}
  {conditionTokens tokens : List Occurrence}

theorem read_whileStatement {condition : Expr} {body : Stmt}
    (wordKind : word.kind = Keyword.whileWord)
    (leftParenKind : leftParen.kind = Symbol.leftParen)
    (conditionPhrase : Expression .expression conditionTokens condition)
    (rightParenKind : rightParen.kind = Symbol.rightParen)
    (bodyRead : IsReadStatement (.statement isOpen) tokens body) :
    IsReadStatement (.statement isOpen)
      (word :: leftParen :: (conditionTokens ++ rightParen :: tokens))
      (.whileLoop condition body) := by
  refine ⟨.of_kind wordKind (by decide), ?_⟩
  intro rest faults depth follow room
  simp only [List.length_append, List.length_cons] at room
  rcases Nat.exists_eq_add_of_le' (by omega : 2 ≤ depth) with ⟨depth, rfl⟩
  simp only [List.append_assoc, List.cons_append]
  rw [statement]
  apply bind_of_ok next_front
  rw [wordKind]
  apply bind_of_ok (skip_front (by simp [wordKind]))
  rw [whileStatement]
  apply bind_of_ok (expect_taken leftParenKind)
  refine bind_of_ok (read_of_expression conditionPhrase _ faults depth
    (.cons (by rw [rightParenKind]; decide))
    (by simp only [List.length_append, List.length_cons]; omega)) ?_
  apply bind_of_ok (expect_taken rightParenKind)
  exact bind_of_ok (bodyRead.2 rest faults depth follow (by omega)) rfl

theorem read_forStatement {semicolon : Occurrence} {initializerTokens incrementTokens :
      List Occurrence} {initializer : Option Stmt} {condition increment : Option Expr}
    {body : Stmt} (wordKind : word.kind = Keyword.forWord)
    (leftParenKind : leftParen.kind = Symbol.leftParen)
    (initializerPhrase : ForInitializer initializerTokens initializer)
    (conditionPhrase : OptionalExpression conditionTokens condition)
    (semicolonKind : semicolon.kind = Symbol.semicolon)
    (incrementPhrase : OptionalExpression incrementTokens increment)
    (rightParenKind : rightParen.kind = Symbol.rightParen)
    (bodyRead : IsReadStatement (.statement isOpen) tokens body) :
    IsReadStatement (.statement isOpen)
      (word :: leftParen :: (initializerTokens ++ (conditionTokens ++
        semicolon :: (incrementTokens ++ rightParen :: tokens))))
      (forTree condition increment body initializer) := by
  refine ⟨.of_kind wordKind (by decide), ?_⟩
  intro rest faults depth follow room
  simp only [List.length_append, List.length_cons] at room
  rcases Nat.exists_eq_add_of_le' (by omega : 2 ≤ depth) with ⟨depth, rfl⟩
  simp only [List.append_assoc, List.cons_append]
  rw [statement]
  apply bind_of_ok next_front
  rw [wordKind]
  apply bind_of_ok (skip_front (by simp [wordKind]))
  rw [forStatement]
  apply bind_of_ok (expect_taken leftParenKind)
  refine bind_of_ok (takes_forInitializer initializerPhrase _ faults depth trivial
    (by simp only [List.length_append, List.length_cons]; omega)) ?_
  refine bind_of_ok (takes_expressionUnless rfl rfl conditionPhrase _ faults depth
    ⟨_, _, rfl, semicolonKind⟩ (by simp only [List.length_append, List.length_cons]; omega)) ?_
  apply bind_of_ok (expect_taken semicolonKind)
  refine bind_of_ok (takes_expressionUnless rfl rfl incrementPhrase _ faults depth
    ⟨_, _, rfl, rightParenKind⟩ (by simp only [List.length_append, List.length_cons]; omega)) ?_
  apply bind_of_ok (expect_taken rightParenKind)
  apply bind_of_ok (bodyRead.2 rest faults depth follow (by omega))
  rw [forLoop_eq_forTree]
  rfl

theorem read_ifStatement {condition : Expr} {thenBranch : Stmt}
    (wordKind : word.kind = Keyword.ifWord)
    (leftParenKind : leftParen.kind = Symbol.leftParen)
    (conditionPhrase : Expression .expression conditionTokens condition)
    (rightParenKind : rightParen.kind = Symbol.rightParen)
    (thenRead : IsReadStatement (.statement isOpen) tokens thenBranch) :
    IsReadStatement (.statement true)
      (word :: leftParen :: (conditionTokens ++ rightParen :: tokens))
      (.ifThen condition thenBranch none) := by
  refine ⟨.of_kind wordKind (by decide), ?_⟩
  intro rest faults depth follow room
  simp only [List.length_append, List.length_cons] at room
  rcases Nat.exists_eq_add_of_le' (by omega : 2 ≤ depth) with ⟨depth, rfl⟩
  simp only [List.append_assoc, List.cons_append]
  rw [statement]
  apply bind_of_ok next_front
  rw [wordKind]
  apply bind_of_ok (skip_front (by simp [wordKind]))
  rw [ifStatement]
  apply bind_of_ok (expect_taken leftParenKind)
  refine bind_of_ok (read_of_expression conditionPhrase _ faults depth
    (.cons (by rw [rightParenKind]; decide))
    (by simp only [List.length_append, List.length_cons]; omega)) ?_
  apply bind_of_ok (expect_taken rightParenKind)
  apply bind_of_ok (thenRead.2 rest faults depth (fun _ => follow rfl) (by omega))
  exact bind_of_ok (accept_refused (follow rfl)) rfl

theorem read_ifElseStatement {elseWord : Occurrence} {thenTokens : List Occurrence}
    {condition : Expr} {thenBranch elseBranch : Stmt}
    (wordKind : word.kind = Keyword.ifWord)
    (leftParenKind : leftParen.kind = Symbol.leftParen)
    (conditionPhrase : Expression .expression conditionTokens condition)
    (rightParenKind : rightParen.kind = Symbol.rightParen)
    (thenRead : IsReadStatement (.statement false) thenTokens thenBranch)
    (elseKind : elseWord.kind = Keyword.elseWord)
    (elseRead : IsReadStatement (.statement isOpen) tokens elseBranch) :
    IsReadStatement (.statement isOpen)
      (word :: leftParen :: (conditionTokens ++
        rightParen :: (thenTokens ++ elseWord :: tokens)))
      (.ifThen condition thenBranch (some elseBranch)) := by
  refine ⟨.of_kind wordKind (by decide), ?_⟩
  intro rest faults depth follow room
  simp only [List.length_append, List.length_cons] at room
  rcases Nat.exists_eq_add_of_le' (by omega : 2 ≤ depth) with ⟨depth, rfl⟩
  simp only [List.append_assoc, List.cons_append]
  rw [statement]
  apply bind_of_ok next_front
  rw [wordKind]
  apply bind_of_ok (skip_front (by simp [wordKind]))
  rw [ifStatement]
  apply bind_of_ok (expect_taken leftParenKind)
  refine bind_of_ok (read_of_expression conditionPhrase _ faults depth
    (.cons (by rw [rightParenKind]; decide))
    (by simp only [List.length_append, List.length_cons]; omega)) ?_
  apply bind_of_ok (expect_taken rightParenKind)
  refine bind_of_ok (thenRead.2 _ faults depth (by simp)
    (by simp only [List.length_append, List.length_cons]; omega)) ?_
  apply bind_of_ok (accept_taken elseKind)
  exact bind_of_ok (bind_of_ok (elseRead.2 rest faults depth follow (by omega))
    rfl) rfl

end Nested

/-- Every phrase in which each `else` belongs to the nearest `if` is read. -/
theorem read_of_statement {phrase : StatementPhrase} {tokens : List Occurrence}
    {tree : phrase.Tree} (derivation : Statement .nearestIf phrase tokens tree) :
    IsReadStatement phrase tokens tree := by
  induction derivation with
  | noDeclarations => exact read_noDeclarations
  | moreDeclarations _ _ firstRead restRead =>
    exact read_moreDeclarations firstRead restRead
  | classDeclaration wordKind nameKind superclassPhrase leftBraceKind _ rightBraceKind
      methodsRead =>
      exact read_classDeclaration wordKind nameKind superclassPhrase leftBraceKind
        methodsRead rightBraceKind
  | functionDeclaration wordKind _ read => exact read_functionDeclaration wordKind read
  | varDeclaration phrase => exact read_varDeclaration phrase
  | statement _ read => exact read_statement read
  | noMethods => exact read_noMethods
  | moreMethods _ _ firstRead restRead => exact read_moreMethods firstRead restRead
  | routine nameKind leftParenKind parametersPhrase bound rightParenKind _ bodyRead =>
      exact read_routine nameKind leftParenKind parametersPhrase bound rightParenKind
        bodyRead
  | block leftBraceKind _ rightBraceKind read =>
      exact read_block leftBraceKind read rightBraceKind
  | expressionStatement phrase => exact read_expressionStatement phrase
  | blockStatement _ read => exact read_blockStatement read
  | printStatement wordKind valuePhrase semicolonKind =>
      exact read_printStatement wordKind valuePhrase semicolonKind
  | returnStatement wordKind valuePhrase semicolonKind =>
      exact read_returnStatement wordKind valuePhrase semicolonKind
  | whileStatement wordKind leftParenKind conditionPhrase rightParenKind _ bodyRead =>
      exact read_whileStatement wordKind leftParenKind conditionPhrase rightParenKind
        bodyRead
  | forStatement wordKind leftParenKind initializerPhrase conditionPhrase semicolonKind
      incrementPhrase rightParenKind _ bodyRead =>
      exact read_forStatement wordKind leftParenKind initializerPhrase conditionPhrase
        semicolonKind incrementPhrase rightParenKind bodyRead
  | ifStatement wordKind leftParenKind conditionPhrase rightParenKind _ thenRead =>
      exact read_ifStatement wordKind leftParenKind conditionPhrase rightParenKind
        thenRead
  | ifElseStatement wordKind leftParenKind conditionPhrase rightParenKind _ nearest
      elseKind _ thenRead elseRead =>
      rcases nearest rfl with rfl
      exact read_ifElseStatement wordKind leftParenKind conditionPhrase rightParenKind
        thenRead elseKind elseRead

end LoxLang.Reader
