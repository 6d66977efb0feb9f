import LoxLang.Proofs.Reading.ExpressionAgreement
import LoxLang.Proofs.Reading.StatementCompleteness

/-! # What statements are read as

Statements may contain semicolons, so only the end of input closes them. All tokens before
it are read in the same way at any two depths of descent that suffice, whatever faults
were noted before. So what a list of declarations comes to is what its first declaration
comes to, and then what the remaining ones come to by themselves.
-/

namespace LoxLang

namespace Reader

variable {α : Type} {close : Occurrence} {tokens : List Occurrence} {depth depth' : Nat}

/-! ## Parts of statements -/

def upToSemicolon (part : Reader α) (expectation : Expectation) (build : α → Stmt) :
    Reader Stmt := do
  let read ← part
  let _ ← expect Symbol.semicolon expectation
  pure (build read)

def namedVariable (depth : Nat) : Reader (Occurrence × Option Expr) := do
  let name ← expect .identifier .variableName
  match ← accept Symbol.equal with
  | some _ => (fun value => (name, some value)) <$> expression depth
  | none => pure (name, none)

theorem varDeclaration_eq (depth : Nat) :
    varDeclaration depth =
      upToSemicolon (namedVariable depth) .variableEnd fun read => .var read.1 read.2 := by
  simp only [varDeclaration, upToSemicolon, namedVariable, bind_assoc]
  congr 1
  funext name
  congr 1
  funext found
  cases found <;> simp only [bind_map_left, pure_bind]

theorem expressionUnless_agrees (ends : EndsExpression close) (kind : Kind)
    (fits : Fits tokens 15 depth depth') :
    (expressionUnless kind depth).Agrees (expressionUnless kind depth') close tokens
      fun _ _ => True := by
  apply agrees_follows.bind
  rintro _ _ - ⟨rfl, rfl⟩
  split
  · exact agrees_pure trivial
  · exact ((expressionsAgree ends depth depth').expression _ fits).loose.map

theorem namedVariable_agrees (ends : EndsExpression close)
    (fits : Fits tokens 15 depth depth') :
    (namedVariable depth).Agrees (namedVariable depth') close tokens fun _ _ => True := by
  apply (agrees_expect (ends.foreign (by decide))).bind
  intro name left suffix _
  apply (agrees_accept (ends.foreign (by decide))).bind
  rintro found left' suffix' (⟨equal, rfl, -⟩ | ⟨rfl, -⟩)
  · have fits' : Fits left' 15 depth depth' :=
      fits.part (suffix'.trans suffix).length_le (by decide)
    exact ((expressionsAgree ends depth depth').expression left' fits').loose.map
  · exact agrees_pure trivial

theorem superclass_agrees (ends : EndsExpression close) :
    superclass.Agrees superclass close tokens fun _ _ => True := by
  apply (agrees_accept (ends.foreign (by decide))).bind
  rintro _ left - (⟨less, rfl, -⟩ | ⟨rfl, -⟩)
  · exact (agrees_expect (ends.foreign (by decide))).loose.map
  · exact agrees_pure trivial

theorem moreParameters_agrees (ends : EndsExpression close) :
    ∀ {depth depth' : Nat} {tokens : List Occurrence} (count : Nat),
      Fits tokens 1 depth depth' →
        (moreParameters depth count).Agrees (moreParameters depth' count) close tokens
          fun _ _ => True
  | 0, _, _, _, fits | _, 0, _, _, fits => absurd fits (by unfold Fits; omega)
  | depth + 1, depth' + 1, tokens, count, fits => by
      rw [moreParameters, moreParameters]
      apply (agrees_accept (ends.foreign (by decide))).bind
      rintro _ left - (⟨comma, rfl, rfl, -⟩ | ⟨rfl, -⟩)
      · have further : (do
              let parameter ← expect .identifier .parameterName
              let others ← moreParameters depth (count + 1)
              pure (parameter :: others) : Reader (List Occurrence)).Agrees (do
              let parameter ← expect .identifier .parameterName
              let others ← moreParameters depth' (count + 1)
              pure (parameter :: others)) close left fun _ _ => True := by
          apply (agrees_expect (ends.foreign (by decide))).bind
          intro parameter left' suffix _
          apply (moreParameters_agrees ends (count + 1)
            (fits.behind suffix (by decide))).bind
          exact fun _ _ _ _ => agrees_pure trivial
        dsimp only
        split
        · apply agrees_next.bind
          rintro word _ - ⟨-, rfl⟩
          apply agrees_complain.bind
          rintro _ _ - rfl
          exact further
        · exact further
      · exact agrees_pure trivial

theorem parameters_agrees (ends : EndsExpression close)
    (fits : Fits tokens 1 depth depth') :
    (parameters depth).Agrees (parameters depth') close tokens fun _ _ => True := by
  rw [parameters, parameters]
  apply agrees_follows.bind
  rintro _ _ - ⟨rfl, rfl⟩
  split
  · exact agrees_pure trivial
  · apply (agrees_expect (ends.foreign (by decide))).bind
    intro first left suffix _
    apply (moreParameters_agrees ends 1 (fits.part suffix.length_le (by decide))).bind
    exact fun _ _ _ _ => agrees_pure trivial

/-! ## Before the end of input -/

theorem ended_agrees (extent : Extent) :
    (ended extent).Agrees (ended extent) close tokens fun answer left =>
      (answer = false → (tokens.head?.getD close).kind ≠ .endOfInput) ∧ left = tokens := by
  cases extent with
  | wholeInput =>
      apply agrees_follows.weaken
      rintro _ left - ⟨rfl, rfl⟩
      exact ⟨of_decide_eq_false, rfl⟩
  | block =>
      apply agrees_follows.bind
      rintro _ _ - ⟨-, rfl⟩
      apply agrees_follows.bind
      rintro _ _ - ⟨rfl, rfl⟩
      exact agrees_pure
        ⟨fun unended => of_decide_eq_false (Bool.or_eq_false_iff.mp unended).2, rfl⟩

section AtEnd

variable (final : close.kind = .endOfInput)

include final

theorem upToSemicolon_agrees {part part' : Reader α} {expectation : Expectation}
    {build : α → Stmt} (agrees : part.Agrees part' close tokens fun _ _ => True) :
    (upToSemicolon part expectation build).Agrees (upToSemicolon part' expectation build)
      close tokens fun _ => Shorter tokens := by
  apply agrees.bind
  intro read left suffix _
  apply (agrees_expect (by simp [final])).bind
  rintro semicolon left' - ⟨rfl, -⟩
  exact agrees_pure (Nat.lt_of_lt_of_le (by simp) suffix.length_le)

variable (fits : Fits tokens 15 depth depth')

include fits

theorem expressionStatement_agrees :
    (expressionStatement depth).Agrees (expressionStatement depth') close tokens
      fun _ => Shorter tokens :=
  upToSemicolon_agrees final
    ((expressionsAgree (.inl final) depth depth').expression tokens fits).loose

theorem printStatement_agrees :
    (printStatement depth).Agrees (printStatement depth') close tokens
      fun _ => Shorter tokens :=
  upToSemicolon_agrees final
    ((expressionsAgree (.inl final) depth depth').expression tokens fits).loose

theorem returnStatement_agrees {word : Occurrence} :
    (returnStatement word depth).Agrees (returnStatement word depth') close tokens
      fun _ => Shorter tokens :=
  upToSemicolon_agrees final (expressionUnless_agrees (.inl final) _ fits)

theorem varDeclaration_agrees :
    (varDeclaration depth).Agrees (varDeclaration depth') close tokens
      fun _ => Shorter tokens := by
  rw [varDeclaration_eq, varDeclaration_eq]
  exact upToSemicolon_agrees final (namedVariable_agrees (.inl final) fits)

theorem forInitializer_agrees :
    (forInitializer depth).Agrees (forInitializer depth') close tokens
      fun _ _ => True := by
  rw [forInitializer, forInitializer]
  apply agrees_next.bind
  rintro _ _ - ⟨rfl, rfl⟩
  split
  case h_1 kind =>
    exact (skip_agrees kind (by simp [final]) fun _ _ => agrees_pure trivial).loose
  case h_2 kind =>
    refine (skip_agrees kind (by simp [final]) fun left shorter => ?_).loose
    have fits' : Fits left 15 depth depth' := fits.part (Nat.le_of_lt shorter) (by decide)
    exact (varDeclaration_agrees final fits').loose.map
  case h_3 => exact (expressionStatement_agrees final fits).loose.map

end AtEnd

/-! ## Statements -/

structure StatementsAgree (close : Occurrence) (depth depth' : Nat) : Prop where
  declarations : ∀ extent tokens, Fits tokens 19 depth depth' →
    (declarations depth extent).Agrees (declarations depth' extent) close tokens
      fun _ _ => True
  declaration : ∀ tokens, Fits tokens 18 depth depth' →
    (declaration depth).Agrees (declaration depth') close tokens
      fun _ left => (tokens.head?.getD close).kind ≠ .endOfInput → Shorter tokens left
  wholeDeclaration : ∀ tokens, Fits tokens 17 depth depth' →
    (wholeDeclaration depth).Agrees (wholeDeclaration depth') close tokens
      fun _ => Shorter tokens
  classDeclaration : ∀ tokens, Fits tokens 1 depth depth' →
    (classDeclaration depth).Agrees (classDeclaration depth') close tokens fun _ _ => True
  methods : ∀ tokens, Fits tokens 2 depth depth' →
    (methods depth).Agrees (methods depth') close tokens fun _ _ => True
  routine : ∀ kind tokens, Fits tokens 1 depth depth' →
    (routine depth kind).Agrees (routine depth' kind) close tokens fun _ => Shorter tokens
  block : ∀ tokens, Fits tokens 20 depth depth' →
    (block depth).Agrees (block depth') close tokens fun _ _ => True
  statement : ∀ tokens, Fits tokens 16 depth depth' →
    (statement depth).Agrees (statement depth') close tokens fun _ => Shorter tokens
  forStatement : ∀ tokens, Fits tokens 1 depth depth' →
    (forStatement depth).Agrees (forStatement depth') close tokens fun _ _ => True
  ifStatement : ∀ tokens, Fits tokens 1 depth depth' →
    (ifStatement depth).Agrees (ifStatement depth') close tokens fun _ _ => True
  whileStatement : ∀ tokens, Fits tokens 1 depth depth' →
    (whileStatement depth).Agrees (whileStatement depth') close tokens fun _ _ => True

section Statements

variable (final : close.kind = .endOfInput) (readers : StatementsAgree close depth depth')

include final readers

omit final in
theorem declarations_agree {extent : Extent}
    (fits : Fits tokens 19 (depth + 1) (depth' + 1)) :
    (declarations (depth + 1) extent).Agrees (declarations (depth' + 1) extent) close tokens
      fun _ _ => True := by
  rw [declarations, declarations]
  apply (ended_agrees extent).bind
  rintro answer _ - ⟨unended, rfl⟩
  cases answer with
  | true => exact agrees_pure trivial
  | false =>
      apply (readers.declaration _ (fits.deeper (by decide))).bind
      intro found left _ shorter
      apply (readers.declarations extent left
        (fits.shorter (shorter (unended rfl)) (by decide))).bind
      exact fun _ _ _ _ => agrees_pure trivial

omit readers in
theorem shorter_resumption {left : List Occurrence} (suffix : left <:+ tokens)
    (unended : (tokens.head?.getD close).kind ≠ .endOfInput) :
    Shorter tokens (resumption left) := by
  rcases resumption_eq left with ⟨skipped, equation, -, progress⟩
  have length := congrArg List.length equation
  rw [List.length_append] at length
  unfold Shorter
  by_cases some_taken : left.length < tokens.length
  · omega
  · obtain rfl : left = tokens := suffix.eq_of_length_le (Nat.le_of_not_lt some_taken)
    cases left with
    | nil => exact absurd final unended
    | cons token left =>
        have inside : ¬Ends .wholeInput (token :: left) := by simpa [Ends] using unended
        have skipped := List.length_pos_iff.mpr (progress (List.cons_ne_nil _ _) inside)
        omega

omit readers in
theorem resumption_close (left later : List Occurrence) :
    resumption (left ++ close :: later) = resumption left ++ close :: later := by
  have closing : close.kind.startsStatement = false := by rw [final]; rfl
  induction left with
  | nil => simp [resumption, final]
  | cons token left induction =>
      have front : (left ++ close :: later).head?.any (·.kind.startsStatement) =
          left.head?.any (·.kind.startsStatement) := by
        cases left <;> simp [closing]
      rw [List.cons_append, resumption, resumption, front, induction]
      split
      · rfl
      · split <;> rfl

omit readers in
theorem resume_close (left later : List Occurrence) (noted : Array ReadingFault) :
    resume ⟨left ++ close :: later, noted⟩ =
      .ok () ⟨resumption left ++ close :: later, noted⟩ := by
  have ahead := resumption_close final left later
  cases skipped : resumption left with
  | nil => exact resume_of_cons (ahead.trans (by rw [skipped]; rfl))
  | cons token left => exact resume_of_cons (ahead.trans (by rw [skipped]; rfl))

theorem declaration_agrees (fits : Fits tokens 18 (depth + 1) (depth' + 1)) :
    (declaration (depth + 1)).Agrees (declaration (depth' + 1)) close tokens
      fun _ left => (tokens.head?.getD close).kind ≠ .endOfInput → Shorter tokens left := by
  rcases readers.wholeDeclaration tokens (fits.deeper (by decide)) with
    ⟨outcome, left, added, suffix, shorter, same⟩
  cases outcome with
  | some tree =>
      refine ⟨some (some tree), left, added, suffix, fun _ _ _ => shorter tree rfl,
        fun later noted => ?_⟩
      rcases same later noted with ⟨first, second⟩
      rw [declaration_eq, declaration_eq, first, second]
      exact ⟨rfl, rfl⟩
  | none =>
      rcases resumption_eq left with ⟨skipped, equation, -, -⟩
      have later : resumption left <:+ tokens := .trans ⟨skipped, equation.symm⟩ suffix
      refine ⟨some none, resumption left, added, later,
        fun _ _ => shorter_resumption final suffix, fun later noted => ?_⟩
      rcases same later noted with ⟨first, second⟩
      have resumed := resume_close final left later (noted ++ added)
      rw [declaration_eq, declaration_eq, first, second]
      exact ⟨bind_of_ok resumed rfl, bind_of_ok resumed rfl⟩

theorem wholeDeclaration_agrees (fits : Fits tokens 17 (depth + 1) (depth' + 1)) :
    (wholeDeclaration (depth + 1)).Agrees (wholeDeclaration (depth' + 1)) close tokens
      fun _ => Shorter tokens := by
  rw [wholeDeclaration, wholeDeclaration]
  apply agrees_next.bind
  rintro _ _ - ⟨rfl, rfl⟩
  split
  case h_1 kind =>
    refine skip_agrees kind (by simp [final]) fun left shorter => ?_
    exact readers.classDeclaration left (fits.shorter shorter (by decide))
  case h_2 kind =>
    refine skip_agrees kind (by simp [final]) fun left shorter => ?_
    exact (readers.routine .function left (fits.shorter shorter (by decide))).loose.map
  case h_3 kind =>
    refine skip_agrees kind (by simp [final]) fun left shorter => ?_
    exact (varDeclaration_agrees final (fits.shorter shorter (by decide))).loose
  case h_4 => exact readers.statement _ (fits.deeper (by decide))

theorem classDeclaration_agrees (fits : Fits tokens 1 (depth + 1) (depth' + 1)) :
    (classDeclaration (depth + 1)).Agrees (classDeclaration (depth' + 1)) close tokens
      fun _ _ => True := by
  rw [classDeclaration, classDeclaration]
  apply (agrees_expect (by simp [final])).bind
  rintro name left - ⟨rfl, -⟩
  apply (superclass_agrees (.inl final)).bind
  intro superclass left' suffix _
  apply (agrees_expect (by simp [final])).bind
  intro leftBrace left'' suffix' _
  have fits : Fits left'' 2 depth depth' :=
    fits.behind (suffix'.trans suffix) (by decide)
  apply (readers.methods left'' fits).bind
  intro methods rest _ _
  apply (agrees_expect (by simp [final])).bind
  exact fun _ _ _ _ => agrees_pure trivial

omit final in
theorem methods_agree (fits : Fits tokens 2 (depth + 1) (depth' + 1)) :
    (methods (depth + 1)).Agrees (methods (depth' + 1)) close tokens fun _ _ => True := by
  rw [methods, methods]
  apply (ended_agrees .block).bind
  rintro answer _ - ⟨-, rfl⟩
  cases answer with
  | true => exact agrees_pure trivial
  | false =>
      apply (readers.routine .method _ (fits.deeper (by decide))).bind
      intro first left _ shorter
      apply (readers.methods left (fits.shorter shorter (by decide))).bind
      exact fun _ _ _ _ => agrees_pure trivial

theorem routine_agrees {kind : RoutineKind}
    (fits : Fits tokens 1 (depth + 1) (depth' + 1)) :
    (routine (depth + 1) kind).Agrees (routine (depth' + 1) kind) close tokens
      fun _ => Shorter tokens := by
  rw [routine, routine]
  apply (agrees_expect (by simp [final])).bind
  rintro name left - ⟨rfl, -⟩
  apply (agrees_expect (by simp [final])).bind
  intro leftParen left' suffix _
  apply (parameters_agrees (.inl final) (fits.behind suffix (by decide))).bind
  intro parameters left'' suffix' _
  apply (agrees_expect (by simp [final])).bind
  intro rightParen rest suffix'' _
  have suffix := (suffix''.trans suffix').trans suffix
  apply (agrees_expect (by simp [final])).bind
  intro leftBrace inner suffix' _
  have suffix := suffix'.trans suffix
  apply (readers.block inner (fits.behind suffix (by decide))).bind
  intro body _ suffix' _
  exact agrees_pure (shorter_cons (suffix'.trans suffix))

theorem block_agrees (fits : Fits tokens 20 (depth + 1) (depth' + 1)) :
    (block (depth + 1)).Agrees (block (depth' + 1)) close tokens fun _ _ => True := by
  rw [block, block]
  apply (readers.declarations .block tokens (fits.deeper (by decide))).bind
  intro statements left _ _
  apply (agrees_expect (by simp [final])).bind
  exact fun _ _ _ _ => agrees_pure trivial

theorem statement_agrees (fits : Fits tokens 16 (depth + 1) (depth' + 1)) :
    (statement (depth + 1)).Agrees (statement (depth' + 1)) close tokens
      fun _ => Shorter tokens := by
  rw [statement, statement]
  apply agrees_next.bind
  rintro _ _ - ⟨rfl, rfl⟩
  split
  case h_1 kind =>
    refine skip_agrees kind (by simp [final]) fun left shorter => ?_
    exact readers.forStatement left (fits.shorter shorter (by decide))
  case h_2 kind =>
    refine skip_agrees kind (by simp [final]) fun left shorter => ?_
    exact readers.ifStatement left (fits.shorter shorter (by decide))
  case h_3 kind =>
    refine skip_agrees kind (by simp [final]) fun left shorter => ?_
    exact (printStatement_agrees final (fits.shorter shorter (by decide))).loose
  case h_4 kind =>
    refine skip_agrees kind (by simp [final]) fun left shorter => ?_
    exact (returnStatement_agrees final (fits.shorter shorter (by decide))).loose
  case h_5 kind =>
    refine skip_agrees kind (by simp [final]) fun left shorter => ?_
    exact readers.whileStatement left (fits.shorter shorter (by decide))
  case h_6 kind =>
    refine skip_agrees kind (by simp [final]) fun left shorter => ?_
    exact (readers.block left (fits.shorter shorter (by decide))).map
  case h_7 => exact expressionStatement_agrees final (fits.deeper (by decide))

omit readers in
theorem condition_agrees {opening closing : Expectation}
    {second second' : Expr → Reader Stmt}
    (fits : Fits tokens 1 (depth + 1) (depth' + 1))
    (agrees : ∀ condition left, Shorter tokens left →
      (second condition).Agrees (second' condition) close left fun _ _ => True) :
    (do
      let _ ← expect Symbol.leftParen opening
      let condition ← expression depth
      let _ ← expect Symbol.rightParen closing
      second condition : Reader Stmt).Agrees (do
      let _ ← expect Symbol.leftParen opening
      let condition ← expression depth'
      let _ ← expect Symbol.rightParen closing
      second' condition) close tokens fun _ _ => True := by
  apply (agrees_expect (by simp [final])).bind
  rintro leftParen left - ⟨rfl, -⟩
  apply ((expressionsAgree (.inl final) depth depth').expression left
    (fits.behind List.suffix_rfl (by decide))).bind
  intro condition left' suffix _
  apply (agrees_expect (by simp [final])).bind
  intro rightParen left'' suffix' _
  exact agrees condition left'' (shorter_cons (suffix'.trans suffix))

theorem whileStatement_agrees (fits : Fits tokens 1 (depth + 1) (depth' + 1)) :
    (whileStatement (depth + 1)).Agrees (whileStatement (depth' + 1)) close tokens
      fun _ _ => True := by
  rw [whileStatement, whileStatement]
  apply condition_agrees final fits
  intro condition left shorter
  apply (readers.statement left (fits.shorter shorter (by decide))).bind
  exact fun _ _ _ _ => agrees_pure trivial

theorem ifStatement_agrees (fits : Fits tokens 1 (depth + 1) (depth' + 1)) :
    (ifStatement (depth + 1)).Agrees (ifStatement (depth' + 1)) close tokens
      fun _ _ => True := by
  rw [ifStatement, ifStatement]
  apply condition_agrees final fits
  intro condition left shorter
  apply (readers.statement left (fits.shorter shorter (by decide))).bind
  intro thenBranch left' suffix _
  apply (agrees_accept (by simp [final])).bind
  rintro _ left'' suffix' (⟨elseWord, rfl, -⟩ | ⟨rfl, -⟩)
  · have shorter := shorter.suffix (suffix'.trans suffix)
    have agrees : (some <$> statement depth).Agrees (some <$> statement depth') close left''
        fun _ _ => True :=
      (readers.statement left'' (fits.shorter shorter (by decide))).loose.map
    apply agrees.bind
    exact fun _ _ _ _ => agrees_pure trivial
  · exact agrees_pure trivial

theorem forStatement_agrees (fits : Fits tokens 1 (depth + 1) (depth' + 1)) :
    (forStatement (depth + 1)).Agrees (forStatement (depth' + 1)) close tokens
      fun _ _ => True := by
  rw [forStatement, forStatement]
  apply (agrees_expect (by simp [final])).bind
  rintro leftParen left - ⟨rfl, -⟩
  apply (forInitializer_agrees final (fits.behind List.suffix_rfl (by decide))).bind
  intro initializer left' suffix _
  have fits' : Fits left' 15 depth depth' := fits.behind suffix (by decide)
  apply (expressionUnless_agrees (.inl final) _ fits').bind
  intro condition left'' suffix' _
  apply (agrees_expect (by simp [final])).bind
  intro semicolon rest suffix'' _
  have suffix := (suffix''.trans suffix').trans suffix
  have fits' : Fits rest 15 depth depth' := fits.behind suffix (by decide)
  apply (expressionUnless_agrees (.inl final) _ fits').bind
  intro increment rest' suffix' _
  apply (agrees_expect (by simp [final])).bind
  intro rightParen body suffix'' _
  have suffix := (suffix''.trans suffix').trans suffix
  apply (readers.statement body (fits.behind suffix (by decide))).bind
  exact fun _ _ _ _ => agrees_pure trivial

end Statements

theorem statementsAgree (final : close.kind = .endOfInput) :
    ∀ depth depth', StatementsAgree close depth depth'
  | 0, _ | _, 0 => by
      constructor <;> intros <;> rename_i fits <;> exact absurd fits (by unfold Fits; omega)
  | depth + 1, depth' + 1 =>
      have readers := statementsAgree final depth depth'
      { declarations := fun _ _ fits => declarations_agree readers fits
        declaration := fun _ fits => declaration_agrees final readers fits
        wholeDeclaration := fun _ fits => wholeDeclaration_agrees final readers fits
        classDeclaration := fun _ fits => classDeclaration_agrees final readers fits
        methods := fun _ fits => methods_agree readers fits
        routine := fun _ _ fits => routine_agrees final readers fits
        block := fun _ fits => block_agrees final readers fits
        statement := fun _ fits => statement_agrees final readers fits
        forStatement := fun _ fits => forStatement_agrees final readers fits
        ifStatement := fun _ fits => ifStatement_agrees final readers fits
        whileStatement := fun _ fits => whileStatement_agrees final readers fits }

end Reader

/-! ## Lists of declarations -/

variable {rest : List Occurrence} {finish : Occurrence} {depth : Nat}

/-- What the tokens before an end of input come to. -/
def Parsed.upTo (finish : Occurrence) (rest : List Occurrence) : Parsed :=
  (Parsed.ofTokens? (rest ++ [finish])).getD ⟨[], []⟩

namespace Parsed

open Reader

/-- At any depth that suffices and behind any faults, the declarations before an end of
input are the same, whatever stands behind it. -/
theorem declarations_upTo (inside : ∀ token ∈ rest, token.kind ≠ .endOfInput)
    (final : finish.kind = .endOfInput) (enough : 32 * rest.length + 19 ≤ depth)
    (later : List Occurrence) (noted : Array ReadingFault) :
    declarations depth .wholeInput ⟨rest ++ finish :: later, noted⟩ =
      .ok (upTo finish rest).statements
        ⟨finish :: later, noted ++ (upTo finish rest).faults.toArray⟩ := by
  have fits : Fits rest 19 (Stream.descent ⟨rest ++ [finish], #[]⟩) depth := by
    simp only [Fits, Stream.descent, List.length_append]
    omega
  rcases (statementsAgree final _ _).declarations .wholeInput rest fits with
    ⟨outcome, left, added, suffix, -, same⟩
  -- One run is that of the whole input by itself, the other one that at `depth`.
  have found := (same [] #[]).1
  have again := (same later noted).2
  have finishes : Stream.Finishes ⟨rest ++ [finish], #[]⟩ := ⟨finish, by simp, final⟩
  have room : Room ⟨rest ++ [finish], #[]⟩ 19 (Stream.descent ⟨rest ++ [finish], #[]⟩) :=
    ⟨by simp only [Stream.descent]; omega⟩
  rcases (statementsSound _).declarations .wholeInput _ room finishes with
    ⟨statements, after, delivered, taken, faults, -, ended, -⟩
  rw [delivered] at found
  cases outcome with
  | none => simp [ending] at found
  | some result =>
      simp only [ending, EStateM.Result.ok.injEq] at found
      rcases found with ⟨rfl, rfl⟩
      obtain rfl : left = [] := by
        cases left with
        | nil => rfl
        | cons token left =>
            have atEnd : token.kind = .endOfInput := by simpa [Ends] using ended
            exact absurd atEnd (inside token (suffix.subset (by simp)))
      rw [again, upTo, ofTokens?, ofTokens, Stream.parse, delivered]
      simp [ending, Except.toOption]

theorem ofTokens_upTo (inside : ∀ token ∈ rest, token.kind ≠ .endOfInput)
    (final : finish.kind = .endOfInput) (later : List Occurrence) :
    ofTokens (rest ++ finish :: later) = .ok (upTo finish rest) := by
  have enough : 32 * rest.length + 19 ≤
      Stream.descent ⟨rest ++ finish :: later, #[]⟩ := by
    simp only [Stream.descent, List.length_append, List.length_cons]
    omega
  rw [ofTokens, Stream.parse, declarations_upTo inside final enough]
  simp

theorem ofTokens?_upTo (inside : ∀ token ∈ rest, token.kind ≠ .endOfInput)
    (final : finish.kind = .endOfInput) (later : List Occurrence) :
    ofTokens? (rest ++ finish :: later) = some (upTo finish rest) := by
  rw [ofTokens?, ofTokens_upTo inside final]
  rfl

theorem upTo_nil (final : finish.kind = .endOfInput) : upTo finish [] = ⟨[], []⟩ := by
  have next : Next Extent.wholeInput.close [finish] := ⟨finish, [], rfl, final⟩
  have depth : Stream.descent ⟨[finish], #[]⟩ = 63 + 1 := rfl
  rw [upTo, ofTokens?, ofTokens, Stream.parse, List.nil_append, depth, declarations,
    bind_of_ok (ended_of_next next) rfl]
  rfl

theorem upTo_of_declaration {left : List Occurrence} {found : Option Stmt}
    {added : Array ReadingFault} (inside : ∀ token ∈ rest, token.kind ≠ .endOfInput)
    (final : finish.kind = .endOfInput) (nonempty : rest ≠ [])
    (enough : 32 * rest.length + 50 ≤ depth)
    (outcome : declaration depth ⟨rest ++ [finish], #[]⟩ =
      .ok found ⟨left ++ [finish], added⟩) :
    upTo finish rest =
      ⟨found.toList ++ (upTo finish left).statements,
        added.toList ++ (upTo finish left).faults⟩ := by
  obtain ⟨token, tail, rfl⟩ := List.exists_cons_of_ne_nil nonempty
  have unended : ¬Ends .wholeInput (token :: tail ++ [finish]) := by
    simpa [Ends] using inside token (by simp)
  have room : Room ⟨token :: tail ++ [finish], #[]⟩ 18 depth :=
    ⟨by simp only [List.length_append, List.length_cons, List.length_nil] at enough ⊢
        omega⟩
  rcases (statementsSound depth).declaration _ room ⟨finish, by simp, final⟩ with
    ⟨result, after, delivered, taken, faults, reads, progress, -⟩
  obtain ⟨rfl, rfl⟩ := EStateM.Result.ok.inj (outcome.symm.trans delivered)
  have split : token :: tail = taken ++ left :=
    List.append_cancel_right (reads.rest.trans (List.append_assoc _ _ _).symm)
  have taken := List.length_pos_iff.mpr (progress unended)
  have length := congrArg List.length split
  rw [List.length_append] at length
  have inside' : ∀ token ∈ left, token.kind ≠ .endOfInput := fun other member =>
    inside other (split ▸ List.mem_append_right _ member)
  have shorter : 32 * left.length + 19 ≤ depth := by omega
  have others := declarations_upTo inside' final shorter [] added
  have start : ended .wholeInput ⟨token :: tail ++ [finish], #[]⟩ =
      .ok false ⟨token :: tail ++ [finish], #[]⟩ :=
    follows_front.trans (by rw [decide_eq_false (inside token (by simp))]; rfl)
  have whole := declarations_upTo inside final
    (by omega : 32 * (token :: tail).length + 19 ≤ depth + 1) [] #[]
  rw [declarations,
    bind_of_ok start (bind_of_ok outcome (bind_of_ok others rfl))] at whole
  obtain ⟨statements, stream⟩ := EStateM.Result.ok.inj whole
  have faults := congrArg (fun stream => stream.faults.toList) stream
  simp only [Array.toList_append, List.nil_append] at faults
  rw [statements, faults]

end Parsed

end LoxLang
