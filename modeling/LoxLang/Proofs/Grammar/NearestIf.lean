import LoxLang.Proofs.Grammar.Statement

/-! # Every derivable token list has a derivation with nearest `if`s

An `else` that belongs to an `if` further out can be moved to the nearest one. This
changes the tree but neither the tokens nor whether they are derivable.
-/

namespace LoxLang.Grammar

/-- The tokens are the phrase with nearest `if`s, whatever they stand for. Whether a
statement is open may depend on the derivation. -/
def HasNearest : StatementPhrase → List Occurrence → Prop
  | .statement _, tokens =>
    ∃ isOpen tree, Statement .nearestIf (.statement isOpen) tokens tree
  | phrase, tokens => ∃ tree, Statement .nearestIf phrase tokens tree

section Attach

variable {elseWord : Occurrence} {elseTokens : List Occurrence} {elseOpen : Bool}
  {elseBranch : Stmt}

/-- An `else` behind an open statement can be given to an `if` inside it. -/
theorem Statement.attach {phrase : StatementPhrase} {tokens : List Occurrence}
    {tree : phrase.Tree} (derivation : Statement .nearestIf phrase tokens tree)
    (isOpen : phrase = .statement true) (elseKind : elseWord.kind = Keyword.elseWord)
    (elsePhrase : Statement .nearestIf (.statement elseOpen) elseTokens elseBranch) :
    HasNearest phrase (tokens ++ elseWord :: elseTokens) := by
  induction derivation with
  | whileStatement wordKind leftParenKind conditionPhrase rightParenKind _ bodyAttached =>
      rcases bodyAttached isOpen with ⟨_, _, bodyPhrase⟩
      simp only [List.cons_append, List.append_assoc]
      exact ⟨_, _, .whileStatement wordKind leftParenKind conditionPhrase rightParenKind
        bodyPhrase⟩
  | forStatement wordKind leftParenKind initializerPhrase conditionPhrase semicolonKind
      incrementPhrase rightParenKind _ bodyAttached =>
      rcases bodyAttached isOpen with ⟨_, _, bodyPhrase⟩
      simp only [List.cons_append, List.append_assoc]
      exact ⟨_, _, .forStatement wordKind leftParenKind initializerPhrase conditionPhrase
        semicolonKind incrementPhrase rightParenKind bodyPhrase⟩
  | @ifStatement _ _ _ thenOpen _ _ _ _ wordKind leftParenKind conditionPhrase
      rightParenKind thenPhrase thenAttached =>
      simp only [List.cons_append, List.append_assoc]
      cases thenOpen with
      | false =>
          exact ⟨_, _, .ifElseStatement wordKind leftParenKind conditionPhrase
            rightParenKind thenPhrase (fun _ => rfl) elseKind elsePhrase⟩
      | true =>
          rcases thenAttached rfl with ⟨_, _, thenPhrase⟩
          exact ⟨_, _, .ifStatement wordKind leftParenKind conditionPhrase rightParenKind
            thenPhrase⟩
  | ifElseStatement wordKind leftParenKind conditionPhrase rightParenKind thenPhrase
      nearest elseKind' _ _ elseAttached =>
      rcases elseAttached isOpen with ⟨_, _, branchPhrase⟩
      simp only [List.cons_append, List.append_assoc]
      exact ⟨_, _, .ifElseStatement wordKind leftParenKind conditionPhrase rightParenKind
        thenPhrase nearest elseKind' branchPhrase⟩
  | expressionStatement | blockStatement | printStatement | returnStatement =>
    simp at isOpen
  | noDeclarations | moreDeclarations | classDeclaration | functionDeclaration | varDeclaration
  | statement | noMethods | moreMethods | routine | block => cases isOpen

end Attach

/-- In a derivation each `else` can be moved to the nearest `if`. -/
theorem Statement.hasNearest {rule : ElseRule} {phrase : StatementPhrase}
    {tokens : List Occurrence} {tree : phrase.Tree}
    (derivation : Statement rule phrase tokens tree) : HasNearest phrase tokens := by
  induction derivation with
  | noDeclarations => exact ⟨_, .noDeclarations⟩
  | moreDeclarations _ _ first rest =>
      rcases first with ⟨_, first⟩
      rcases rest with ⟨_, rest⟩
      exact ⟨_, .moreDeclarations first rest⟩
  | classDeclaration wordKind nameKind superclassPhrase leftBraceKind _ rightBraceKind
      methods =>
      rcases methods with ⟨_, methods⟩
      exact ⟨_, .classDeclaration wordKind nameKind superclassPhrase leftBraceKind methods
        rightBraceKind⟩
  | functionDeclaration wordKind _ routine =>
      rcases routine with ⟨_, routine⟩
      exact ⟨_, .functionDeclaration wordKind routine⟩
  | varDeclaration phrase => exact ⟨_, .varDeclaration phrase⟩
  | statement _ phrase =>
      rcases phrase with ⟨_, _, phrase⟩
      exact ⟨_, .statement phrase⟩
  | noMethods => exact ⟨_, .noMethods⟩
  | moreMethods _ _ first rest =>
      rcases first with ⟨_, first⟩
      rcases rest with ⟨_, rest⟩
      exact ⟨_, .moreMethods first rest⟩
  | routine nameKind leftParenKind parametersPhrase bound rightParenKind _ body =>
      rcases body with ⟨_, body⟩
      exact ⟨_, .routine nameKind leftParenKind parametersPhrase bound rightParenKind
        body⟩
  | block leftBraceKind _ rightBraceKind statements =>
      rcases statements with ⟨_, statements⟩
      exact ⟨_, .block leftBraceKind statements rightBraceKind⟩
  | expressionStatement phrase => exact ⟨_, _, .expressionStatement phrase⟩
  | blockStatement _ phrase =>
      rcases phrase with ⟨_, phrase⟩
      exact ⟨_, _, .blockStatement phrase⟩
  | printStatement wordKind valuePhrase semicolonKind =>
      exact ⟨_, _, .printStatement wordKind valuePhrase semicolonKind⟩
  | returnStatement wordKind valuePhrase semicolonKind =>
      exact ⟨_, _, .returnStatement wordKind valuePhrase semicolonKind⟩
  | whileStatement wordKind leftParenKind conditionPhrase rightParenKind _ body =>
      rcases body with ⟨_, _, body⟩
      exact ⟨_, _, .whileStatement wordKind leftParenKind conditionPhrase rightParenKind
        body⟩
  | forStatement wordKind leftParenKind initializerPhrase conditionPhrase semicolonKind
      incrementPhrase rightParenKind _ body =>
      rcases body with ⟨_, _, body⟩
      exact ⟨_, _, .forStatement wordKind leftParenKind initializerPhrase conditionPhrase
        semicolonKind incrementPhrase rightParenKind body⟩
  | ifStatement wordKind leftParenKind conditionPhrase rightParenKind _ thenBranch =>
      rcases thenBranch with ⟨_, _, thenBranch⟩
      exact ⟨_, _, .ifStatement wordKind leftParenKind conditionPhrase rightParenKind
        thenBranch⟩
  | ifElseStatement wordKind leftParenKind conditionPhrase rightParenKind _ _ elseKind _
      thenBranch elseBranch =>
      rcases thenBranch with ⟨thenOpen, _, thenBranch⟩
      rcases elseBranch with ⟨_, _, elseBranch⟩
      cases thenOpen with
      | false =>
          exact ⟨_, _, .ifElseStatement wordKind leftParenKind conditionPhrase
            rightParenKind thenBranch (fun _ => rfl) elseKind elseBranch⟩
      | true =>
          -- The `else` goes to an `if` inside the branch, and this statement is left
          -- without one.
          rcases thenBranch.attach rfl elseKind elseBranch with ⟨_, _, thenBranch⟩
          exact ⟨_, _, .ifStatement wordKind leftParenKind conditionPhrase rightParenKind
            thenBranch⟩

theorem Statement.toAnyIf {rule : ElseRule} {phrase : StatementPhrase}
    {tokens : List Occurrence} {tree : phrase.Tree}
    (derivation : Statement rule phrase tokens tree) :
    Statement .anyIf phrase tokens tree := by
  induction derivation with
  | noDeclarations => exact .noDeclarations
  | moreDeclarations _ _ first rest => exact .moreDeclarations first rest
  | classDeclaration wordKind nameKind superclassPhrase leftBraceKind _ rightBraceKind
      methods =>
      exact .classDeclaration wordKind nameKind superclassPhrase leftBraceKind methods
        rightBraceKind
  | functionDeclaration wordKind _ routine => exact .functionDeclaration wordKind routine
  | varDeclaration phrase => exact .varDeclaration phrase
  | statement _ phrase => exact .statement phrase
  | noMethods => exact .noMethods
  | moreMethods _ _ first rest => exact .moreMethods first rest
  | routine nameKind leftParenKind parametersPhrase bound rightParenKind _ body =>
      exact .routine nameKind leftParenKind parametersPhrase bound rightParenKind body
  | block leftBraceKind _ rightBraceKind statements =>
      exact .block leftBraceKind statements rightBraceKind
  | expressionStatement phrase => exact .expressionStatement phrase
  | blockStatement _ phrase => exact .blockStatement phrase
  | printStatement wordKind valuePhrase semicolonKind =>
      exact .printStatement wordKind valuePhrase semicolonKind
  | returnStatement wordKind valuePhrase semicolonKind =>
      exact .returnStatement wordKind valuePhrase semicolonKind
  | whileStatement wordKind leftParenKind conditionPhrase rightParenKind _ body =>
      exact .whileStatement wordKind leftParenKind conditionPhrase rightParenKind body
  | forStatement wordKind leftParenKind initializerPhrase conditionPhrase semicolonKind
      incrementPhrase rightParenKind _ body =>
      exact .forStatement wordKind leftParenKind initializerPhrase conditionPhrase
        semicolonKind incrementPhrase rightParenKind body
  | ifStatement wordKind leftParenKind conditionPhrase rightParenKind _ thenBranch =>
      exact .ifStatement wordKind leftParenKind conditionPhrase rightParenKind thenBranch
  | ifElseStatement wordKind leftParenKind conditionPhrase rightParenKind _ _ elseKind _
      thenBranch elseBranch =>
      exact .ifElseStatement wordKind leftParenKind conditionPhrase rightParenKind
        thenBranch nofun elseKind elseBranch

end LoxLang.Grammar
