import LoxLang.Proofs.Reading.StatementAgreement

/-! # Reading goes on behind a simple statement

A simple statement is read up to its semicolon, or abandoned somewhere before. In neither
case does it matter what stands behind the semicolon, and reading always goes on there:
the tokens that recovery skips end with the semicolon.
-/

namespace LoxLang

def statementKinds : List Kind :=
  [Keyword.classWord, Keyword.funWord, Keyword.varWord, Keyword.forWord, Keyword.ifWord,
    Keyword.whileWord, Keyword.printWord, Keyword.returnWord]

def compoundKinds : List Kind :=
  [Keyword.classWord, Keyword.funWord, Keyword.forWord, Keyword.ifWord, Keyword.whileWord,
    Symbol.leftBrace]

theorem Kind.startsStatement_iff (kind : Kind) :
    kind.startsStatement = true ↔ kind ∈ statementKinds := by
  unfold Kind.startsStatement
  split <;> simp_all [statementKinds]

/-- Tokens that could stand before the semicolon of a single statement without statements
in it, whether they fit the grammar or not. -/
structure Simple (tokens : List Occurrence) : Prop where
  inside : ∀ token ∈ tokens, token.kind ≠ .endOfInput ∧ token.kind ≠ Symbol.semicolon
  start : ∀ token ∈ tokens.head?, token.kind ∉ compoundKinds
  single : ∀ token ∈ tokens.tail, token.kind ∉ statementKinds

namespace Reader

variable {α β : Type} {semicolon : Occurrence} {tokens : List Occurrence} {depth : Nat}

/-! ## Readers that stop at a semicolon -/

/-- Before the semicolon a declaration is abandoned, or else it ends just behind it. -/
def StopsAt (semicolon : Occurrence) (tokens : List Occurrence) (reader : Reader α) :
    Prop :=
  ∃ (outcome : Option α) (left : List Occurrence) (added : Array ReadingFault),
    left <:+ tokens ∧ ∀ behind noted,
      reader ⟨tokens ++ semicolon :: behind, noted⟩ =
        ending outcome
          ⟨if outcome.isSome then behind else left ++ semicolon :: behind, noted ++ added⟩

section StopsAt

theorem Agrees.stopsAt {first : Reader β} {second : β → Reader α}
    {middle : β → List Occurrence → Prop}
    (agrees : first.Agrees first semicolon tokens middle)
    (stops : ∀ result left, left <:+ tokens → middle result left →
      (second result).StopsAt semicolon left) :
    (first >>= second).StopsAt semicolon tokens := by
  rcases agrees with ⟨outcome, left, added, suffix, holds, same⟩
  cases outcome with
  | none =>
      refine ⟨none, left, added, suffix, fun behind noted => ?_⟩
      have outcome := (same behind noted).1
      simp only [Bind.bind, EStateM.bind, outcome, ending]
      rfl
  | some result =>
      rcases stops result left suffix (holds result rfl) with
        ⟨outcome', left', added', suffix', stop⟩
      refine ⟨outcome', left', added ++ added', suffix'.trans suffix,
        fun behind noted => ?_⟩
      have outcome := (same behind noted).1
      rw [← Array.append_assoc]
      exact bind_of_ok outcome (stop behind _)

variable (semicolonKind : semicolon.kind = Symbol.semicolon)

include semicolonKind

theorem expect_stopsAt {expectation : Expectation} {result : α}
    (inside : ∀ token ∈ tokens, token.kind ≠ Symbol.semicolon) :
    (do
      let _ ← expect Symbol.semicolon expectation
      pure result : Reader α).StopsAt semicolon tokens := by
  cases tokens with
  | nil =>
      refine ⟨some result, [], #[], List.suffix_rfl, fun behind noted => ?_⟩
      rw [Array.append_empty]
      exact bind_of_ok (expect_taken semicolonKind) rfl
  | cons token tokens =>
      refine ⟨none, token :: tokens, #[⟨token, .expected expectation⟩], List.suffix_rfl,
        fun behind noted => ?_⟩
      have different : token.kind ≠ Symbol.semicolon := inside token (by simp)
      have refused : accept Symbol.semicolon
          ⟨token :: (tokens ++ semicolon :: behind), noted⟩ =
            .ok none ⟨token :: (tokens ++ semicolon :: behind), noted⟩ :=
        accept_refused ⟨token, rfl, different⟩
      rw [expect, bind_assoc, List.cons_append, bind_of_ok refused rfl,
        ← Array.push_eq_append]
      rfl

theorem upToSemicolon_stopsAt {part : Reader α} {expectation : Expectation}
    {build : α → Stmt} (inside : ∀ token ∈ tokens, token.kind ≠ Symbol.semicolon)
    (agrees : part.Agrees part semicolon tokens fun _ _ => True) :
    (upToSemicolon part expectation build).StopsAt semicolon tokens := by
  apply agrees.stopsAt
  intro read left suffix _
  exact expect_stopsAt semicolonKind fun token member =>
    inside token (suffix.subset member)

end StopsAt

/-! ## Recovery -/

/-- From any place before a semicolon recovery leads just behind it, unless a statement
seems to start in between. -/
theorem resumption_of_semicolon {behind : List Occurrence}
    (semicolonKind : semicolon.kind = Symbol.semicolon)
    (inside : ∀ token ∈ tokens, token.kind ≠ .endOfInput ∧ token.kind ≠ Symbol.semicolon)
    (single : ∀ token ∈ tokens.tail, token.kind ∉ statementKinds) :
    resumption (tokens ++ semicolon :: behind) = behind := by
  induction tokens with
  | nil => simp [resumption, semicolonKind]
  | cons token tokens induction =>
      have next :
          (tokens ++ semicolon :: behind).head?.any (·.kind.startsStatement) = false := by
        cases tokens with
        | nil => simp [semicolonKind, Kind.startsStatement]
        | cons next tokens =>
            have foreign := single next (by simp)
            rw [← Kind.startsStatement_iff, Bool.not_eq_true] at foreign
            simpa using foreign
      have different := inside token (by simp)
      rw [List.cons_append, resumption, next]
      simp only [different, decide_false, Bool.or_self, Bool.false_eq_true, if_false]
      exact induction (fun token member => inside token (by simp [member]))
        fun token member => single token (List.mem_of_mem_tail member)

theorem suffix_tail {left : List Occurrence} (suffix : left <:+ tokens) :
    left.tail <:+ tokens.tail := by
  rcases suffix with ⟨taken, rfl⟩
  cases taken with
  | nil => exact List.suffix_rfl
  | cons token taken => exact (List.tail_suffix left).trans (List.suffix_append taken left)

/-! ## Simple statements -/

section Simple

variable (semicolonKind : semicolon.kind = Symbol.semicolon) (simple : Simple tokens)

include semicolonKind simple

theorem front_not_compound : (tokens.head?.getD semicolon).kind ∉ compoundKinds := by
  cases tokens with
  | nil =>
      simp only [List.head?_nil, Option.getD_none, semicolonKind]
      decide
  | cons token tokens => exact simple.start token rfl

theorem skip_stopsAt {kind : Kind} {reader : Reader α}
    (same : (tokens.head?.getD semicolon).kind = kind) (different : kind ≠ Symbol.semicolon)
    (stops : ∀ left, Shorter tokens left →
      (∀ token ∈ left, token.kind ≠ Symbol.semicolon) → reader.StopsAt semicolon left) :
    (do skip; reader).StopsAt semicolon tokens := by
  cases tokens with
  | nil => exact absurd (same.symm.trans semicolonKind) different
  | cons token tokens =>
      apply (agrees_skip (simple.inside token (by simp)).1).stopsAt
      rintro _ _ - rfl
      exact stops _ (shorter_cons List.suffix_rfl) fun token member =>
        (simple.inside token (by simp [member])).2

theorem statement_stopsAt (fits : Fits tokens 16 depth depth) :
    (statement depth).StopsAt semicolon tokens := by
  have ends : EndsExpression semicolon := .inr semicolonKind
  have start := front_not_compound semicolonKind simple
  have inside token member := (simple.inside token member).2
  cases depth with
  | zero => exact absurd fits (by unfold Fits; omega)
  | succ depth =>
      rw [statement]
      apply agrees_next.stopsAt
      rintro _ _ - ⟨rfl, rfl⟩
      split
      case h_1 kind | h_2 kind | h_5 kind | h_6 kind =>
        exact absurd (by rw [kind]; decide) start
      case h_3 kind =>
        apply skip_stopsAt semicolonKind simple kind (by decide)
        intro left shorter inside
        apply upToSemicolon_stopsAt semicolonKind inside
        exact ((expressionsAgree ends depth depth).expression left
          (fits.shorter shorter (by decide))).loose
      case h_4 kind =>
        apply skip_stopsAt semicolonKind simple kind (by decide)
        intro left shorter inside
        apply upToSemicolon_stopsAt semicolonKind inside
        exact expressionUnless_agrees ends _ (fits.shorter shorter (by decide))
      case h_7 =>
        apply upToSemicolon_stopsAt semicolonKind inside
        exact ((expressionsAgree ends depth depth).expression _
          (fits.deeper (by decide))).loose

theorem wholeDeclaration_stopsAt (fits : Fits tokens 17 depth depth) :
    (wholeDeclaration depth).StopsAt semicolon tokens := by
  have start := front_not_compound semicolonKind simple
  cases depth with
  | zero => exact absurd fits (by unfold Fits; omega)
  | succ depth =>
      rw [wholeDeclaration]
      apply agrees_next.stopsAt
      rintro _ _ - ⟨rfl, rfl⟩
      split
      case h_1 kind | h_2 kind => exact absurd (by rw [kind]; decide) start
      case h_3 kind =>
        apply skip_stopsAt semicolonKind simple kind (by decide)
        intro left shorter inside
        rw [varDeclaration_eq]
        apply upToSemicolon_stopsAt semicolonKind inside
        exact namedVariable_agrees (.inr semicolonKind) (fits.shorter shorter (by decide))
      case h_4 => exact statement_stopsAt semicolonKind simple (fits.deeper (by decide))

/-- A simple statement is read or abandoned, and in both cases reading goes on behind its
semicolon. -/
theorem declaration_of_simple (enough : 32 * tokens.length + 18 ≤ depth) :
    ∃ found added, ∀ behind noted, behind ≠ [] →
      declaration depth ⟨tokens ++ semicolon :: behind, noted⟩ =
        .ok found ⟨behind, noted ++ added⟩ := by
  cases depth with
  | zero => omega
  | succ depth =>
      have fits : Fits tokens 17 depth depth := by
        unfold Fits
        omega
      rcases wholeDeclaration_stopsAt semicolonKind simple fits with
        ⟨outcome, left, added, suffix, stops⟩
      refine ⟨outcome, added, fun behind noted nonempty => ?_⟩
      rw [declaration_eq, stops]
      cases outcome with
      | some tree => rfl
      | none =>
          -- The skipped tokens begin inside the statement, so its semicolon is met first.
          have resumed : resumption (left ++ semicolon :: behind) = behind :=
            resumption_of_semicolon semicolonKind
              (fun token member => simple.inside token (suffix.subset member))
              fun token member => simple.single token ((suffix_tail suffix).subset member)
          obtain ⟨next, later, rfl⟩ := List.exists_cons_of_ne_nil nonempty
          exact bind_of_ok (resume_of_cons resumed) rfl

end Simple

end Reader

end LoxLang
