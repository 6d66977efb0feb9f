import LoxLang.Proofs.Reading.ExpressionCompleteness

/-! # What an expression is read as

What a reader makes of tokens up to a closing one depends on these tokens and the closing
one only: not on the faults noted before, not on the depth of descent once it suffices,
and not on what stands behind the closing token. The end of input closes whatever comes
before it, and a semicolon closes an expression.
-/

namespace LoxLang.Reader

variable {α β : Type} {close : Occurrence} {tokens : List Occurrence}

def ending (outcome : Option α) (stream : Stream) : EStateM.Result Interruption Stream α :=
  match outcome with
  | some result => .ok result stream
  | none => .error .abandoned stream

/-- Both readers make the same of the tokens before `close`, in all surroundings. They
leave some of these tokens; `post` holds of the result, if there is one, and of what is
left. -/
def Agrees (reader other : Reader α) (close : Occurrence) (tokens : List Occurrence)
    (post : α → List Occurrence → Prop) : Prop :=
  ∃ outcome left added, left <:+ tokens ∧ (∀ result ∈ outcome, post result left) ∧
    ∀ later noted,
      reader ⟨tokens ++ close :: later, noted⟩ =
          ending outcome ⟨left ++ close :: later, noted ++ added⟩ ∧
        other ⟨tokens ++ close :: later, noted⟩ =
          ending outcome ⟨left ++ close :: later, noted ++ added⟩

theorem Agrees.weaken {reader other : Reader α} {post weaker : α → List Occurrence → Prop}
    (agrees : reader.Agrees other close tokens post)
    (implies : ∀ result left, left <:+ tokens → post result left → weaker result left) :
    reader.Agrees other close tokens weaker := by
  rcases agrees with ⟨outcome, left, added, suffix, holds, same⟩
  exact ⟨outcome, left, added, suffix,
    fun result found => implies result left suffix (holds result found), same⟩

theorem Agrees.loose {reader other : Reader α} {post : α → List Occurrence → Prop}
    (agrees : reader.Agrees other close tokens post) :
    reader.Agrees other close tokens fun _ _ => True :=
  agrees.weaken fun _ _ _ _ => trivial

theorem Agrees.bind {first first' : Reader β} {second second' : β → Reader α}
    {middle : β → List Occurrence → Prop} {post : α → List Occurrence → Prop}
    (firstAgrees : first.Agrees first' close tokens middle)
    (secondAgrees : ∀ result left, left <:+ tokens → middle result left →
      (second result).Agrees (second' result) close left post) :
    (first >>= second).Agrees (first' >>= second') close tokens post := by
  rcases firstAgrees with ⟨outcome, left, added, suffix, holds, same⟩
  cases outcome with
  | none =>
      refine ⟨none, left, added, suffix, by simp, fun later noted => ?_⟩
      rcases same later noted with ⟨first, first'⟩
      simp only [Bind.bind, EStateM.bind, first, first', ending, and_self]
  | some result =>
      rcases secondAgrees result left suffix (holds result rfl) with
        ⟨outcome', left', added', suffix', holds', same'⟩
      refine ⟨outcome', left', added ++ added', suffix'.trans suffix, holds',
        fun later noted => ?_⟩
      rcases same later noted with ⟨first, first'⟩
      rw [← Array.append_assoc]
      exact ⟨bind_of_ok first (same' later _).1,
        bind_of_ok first' (same' later _).2⟩

/-! ## Single steps -/

section Steps

variable {post : α → List Occurrence → Prop}

theorem agrees_of_outcome {reader : Reader α} (outcome : Option α) (left : List Occurrence)
    (added : Array ReadingFault) (suffix : left <:+ tokens)
    (holds : ∀ result ∈ outcome, post result left)
    (same : ∀ later noted, reader ⟨tokens ++ close :: later, noted⟩ =
      ending outcome ⟨left ++ close :: later, noted ++ added⟩) :
    reader.Agrees reader close tokens post :=
  ⟨outcome, left, added, suffix, holds, fun later noted =>
    ⟨same later noted, same later noted⟩⟩

theorem agrees_pure {result : α} (holds : post result tokens) :
    (pure result : Reader α).Agrees (pure result) close tokens post :=
  agrees_of_outcome (some result) tokens #[] List.suffix_rfl (by simpa using holds)
    fun _ _ => by simp [ending, Pure.pure, EStateM.pure]

theorem Agrees.map {reader other : Reader β} {transform : β → α}
    (agrees : reader.Agrees other close tokens fun result => post (transform result)) :
    (transform <$> reader).Agrees (transform <$> other) close tokens post := by
  rw [map_eq_pure_bind, map_eq_pure_bind]
  exact agrees.bind fun result left _ holds => agrees_pure holds

theorem agrees_next :
    next.Agrees next close tokens fun word left =>
      word = tokens.head?.getD close ∧ left = tokens := by
  refine agrees_of_outcome (some (tokens.head?.getD close)) tokens #[] List.suffix_rfl
    (by simp) fun later noted => ?_
  rw [Array.append_empty]
  cases tokens <;> rfl

theorem agrees_follows {kind : Kind} :
    (follows kind).Agrees (follows kind) close tokens fun answer left =>
      answer = decide ((tokens.head?.getD close).kind = kind) ∧ left = tokens := by
  have unfolded :
      follows kind = next >>= fun word => pure (decide (word.kind = kind)) := rfl
  rw [unfolded]
  apply agrees_next.bind
  rintro word left - ⟨rfl, rfl⟩
  exact agrees_pure ⟨rfl, rfl⟩

theorem agrees_skip {token : Occurrence} (inside : token.kind ≠ .endOfInput) :
    skip.Agrees skip close (token :: tokens) fun _ left => left = tokens :=
  agrees_of_outcome (some ()) tokens #[] (List.suffix_cons token tokens) (by simp)
    fun _ _ => by rw [Array.append_empty]; exact skip_front inside

theorem agrees_complain {token : Occurrence} {cause : ReadingCause} :
    (complain token cause).Agrees (complain token cause) close tokens fun _ left =>
      left = tokens :=
  agrees_of_outcome (some ()) tokens #[⟨token, cause⟩] List.suffix_rfl (by simp)
    fun _ _ => by rw [complain, Array.push_eq_append]; rfl

theorem agrees_abandon : (abandon : Reader α).Agrees abandon close tokens post :=
  agrees_of_outcome none tokens #[] List.suffix_rfl (by simp)
    fun _ _ => by rw [Array.append_empty]; rfl

theorem agrees_missing {expectation : Expectation} :
    (missing expectation : Reader α).Agrees (missing expectation) close tokens post := by
  apply agrees_next.bind
  rintro word left - -
  exact agrees_complain.bind fun _ _ _ _ => agrees_abandon

theorem agrees_acceptAs {choose : Kind → Option β} (closing : choose close.kind = none)
    (inside : choose .endOfInput = none) :
    (acceptAs choose).Agrees (acceptAs choose) close tokens fun found left =>
      (∃ token use, found = some (use, token) ∧ tokens = token :: left ∧
        choose token.kind = some use) ∨
      found = none ∧ left = tokens := by
  have refused (different : choose (tokens.head?.getD close).kind = none) :
      (acceptAs choose).Agrees (acceptAs choose) close tokens fun found left =>
        found = none ∧ left = tokens := by
    refine agrees_of_outcome (some none) tokens #[] List.suffix_rfl (by simp)
      fun later noted => ?_
    rw [Array.append_empty]
    refine acceptAs_refused ⟨tokens.head?.getD close, ?_, different⟩
    cases tokens <;> rfl
  cases tokens with
  | nil => exact (refused closing).weaken fun _ _ _ => .inr
  | cons token tokens =>
      cases chosen : choose token.kind with
      | none => exact (refused chosen).weaken fun _ _ _ => .inr
      | some use =>
          refine agrees_of_outcome (some (some (use, token))) tokens #[]
            (List.suffix_cons token tokens) ?_ fun later noted => ?_
          · rintro _ ⟨⟩
            exact .inl ⟨token, use, rfl, rfl, chosen⟩
          · rw [List.cons_append, acceptAs_taken chosen inside, Array.append_empty]
            rfl

theorem agrees_accept {kind : Kind} [inside : kind.Inside]
    (closing : close.kind ≠ kind) :
    (accept kind).Agrees (accept kind) close tokens fun found left =>
      (∃ token, found = some token ∧ tokens = token :: left ∧ token.kind = kind) ∨
      found = none ∧ left = tokens := by
  refine (agrees_acceptAs (if_neg closing) (if_neg inside.ne_end.symm)).bind ?_
  rintro _ left - (⟨token, _, rfl, rfl, chosen⟩ | ⟨rfl, rfl⟩)
  · exact agrees_pure (.inl ⟨token, rfl, rfl, by simpa using chosen⟩)
  · exact agrees_pure (.inr ⟨rfl, rfl⟩)

theorem agrees_expect {kind : Kind} [kind.Inside] {expectation : Expectation}
    (closing : close.kind ≠ kind) :
    (expect kind expectation).Agrees (expect kind expectation) close tokens
      fun token left => tokens = token :: left ∧ token.kind = kind := by
  apply (agrees_accept closing).bind
  rintro _ left - (⟨token, rfl, rfl, same⟩ | ⟨rfl, rfl⟩)
  · exact agrees_pure ⟨rfl, same⟩
  · exact agrees_missing

end Steps

/-! ## Progress -/

def Shorter (tokens left : List Occurrence) : Prop := left.length < tokens.length

theorem Shorter.suffix {left left' : List Occurrence} (shorter : Shorter tokens left)
    (suffix : left' <:+ left) : Shorter tokens left' :=
  Nat.lt_of_le_of_lt suffix.length_le shorter

theorem shorter_cons {token : Occurrence} {left : List Occurrence}
    (suffix : left <:+ tokens) : Shorter (token :: tokens) left :=
  Nat.lt_succ_of_le suffix.length_le

theorem skip_agrees {reader other : Reader α} {kind : Kind} [inside : kind.Inside]
    (same : (tokens.head?.getD close).kind = kind) (different : close.kind ≠ kind)
    (agrees : ∀ left, Shorter tokens left →
      reader.Agrees other close left fun _ _ => True) :
    (do skip; reader).Agrees (do skip; other) close tokens fun _ => Shorter tokens := by
  cases tokens with
  | nil => exact absurd same different
  | cons token tokens =>
      apply (agrees_skip (same ▸ inside.ne_end)).bind
      rintro _ _ - rfl
      apply (agrees _ (shorter_cons List.suffix_rfl)).weaken
      exact fun _ _ suffix _ => shorter_cons suffix

/-! ## What closes an expression -/

def EndsExpression (close : Occurrence) : Prop :=
  close.kind = .endOfInput ∨ close.kind = Symbol.semicolon

namespace EndsExpression

theorem foreign (ends : EndsExpression close) {kind : Kind}
    (inside : kind ≠ .endOfInput ∧ kind ≠ Symbol.semicolon) : close.kind ≠ kind := by
  rintro rfl
  exact ends.elim inside.1 inside.2

theorem connective? (ends : EndsExpression close) (level : Level) :
    level.connective? close.kind = none := by
  obtain kind | kind := ends <;> rw [kind] <;> cases level <;> rfl

theorem unaryOperator (ends : EndsExpression close) :
    UnaryOperator.ofKind? close.kind = none := by
  obtain kind | kind := ends <;> rw [kind] <;> rfl

end EndsExpression

/-! ## Expressions -/

/-- Both depths of descent suffice for the tokens, with `extra` units to spare. -/
def Fits (tokens : List Occurrence) (extra depth depth' : Nat) : Prop :=
  32 * tokens.length + extra ≤ min depth depth'

section Fits

variable {token : Occurrence} {left : List Occurrence} {extra needed depth depth' : Nat}

theorem Fits.part (fits : Fits tokens extra depth depth')
    (shorter : left.length ≤ tokens.length) (enough : needed ≤ extra) :
    Fits left needed depth depth' := by
  unfold Fits at fits ⊢
  omega

theorem Fits.deeper (fits : Fits tokens extra (depth + 1) (depth' + 1))
    (enough : needed < extra) : Fits tokens needed depth depth' := by
  unfold Fits at fits ⊢
  omega

theorem Fits.suffix (fits : Fits tokens extra (depth + 1) (depth' + 1))
    (suffix : left <:+ tokens) (enough : needed < extra) : Fits left needed depth depth' :=
  (fits.deeper enough).part suffix.length_le (Nat.le_refl needed)

theorem Fits.shorter (fits : Fits tokens extra (depth + 1) (depth' + 1))
    (shorter : Shorter tokens left) (enough : needed < extra + 32) :
    Fits left needed depth depth' := by
  unfold Fits Shorter at *
  omega

theorem Fits.behind (fits : Fits (token :: tokens) extra (depth + 1) (depth' + 1))
    (suffix : left <:+ tokens) (enough : needed < extra + 32) :
    Fits left needed depth depth' :=
  fits.shorter (shorter_cons suffix) enough

end Fits

structure ExpressionsAgree (close : Occurrence) (depth depth' : Nat) : Prop where
  expression : ∀ tokens, Fits tokens 15 depth depth' →
    (expression depth).Agrees (expression depth') close tokens fun _ => Shorter tokens
  joined : ∀ level tokens, Fits tokens (2 * levelHeight level + 4) depth depth' →
    (joined depth level).Agrees (joined depth' level) close tokens fun _ => Shorter tokens
  operand : ∀ level tokens, Fits tokens (2 * levelHeight level + 3) depth depth' →
    (operand depth level).Agrees (operand depth' level) close tokens fun _ => Shorter tokens
  joinedTo : ∀ level left tokens, Fits tokens 1 depth depth' →
    (joinedTo depth level left).Agrees (joinedTo depth' level left) close tokens
      fun _ _ => True
  unary : ∀ tokens, Fits tokens 2 depth depth' →
    (unary depth).Agrees (unary depth') close tokens fun _ => Shorter tokens
  suffixed : ∀ callee tokens, Fits tokens 1 depth depth' →
    (suffixed depth callee).Agrees (suffixed depth' callee) close tokens fun _ _ => True
  arguments : ∀ tokens, Fits tokens 16 depth depth' →
    (arguments depth).Agrees (arguments depth') close tokens fun _ _ => True
  moreArguments : ∀ count tokens, Fits tokens 1 depth depth' →
    (moreArguments depth count).Agrees (moreArguments depth' count) close tokens
      fun _ _ => True
  primary : ∀ tokens, Fits tokens 1 depth depth' →
    (primary depth).Agrees (primary depth') close tokens fun _ => Shorter tokens

section Expressions

variable {depth depth' : Nat} (ends : EndsExpression close)
  (readers : ExpressionsAgree close depth depth')

include ends readers

theorem expression_agrees (fits : Fits tokens 15 (depth + 1) (depth' + 1)) :
    (expression (depth + 1)).Agrees (expression (depth' + 1)) close tokens
      fun _ => Shorter tokens := by
  rw [expression, expression]
  apply (readers.joined .disjunction tokens (fits.deeper (by decide))).bind
  intro target left _ shorter
  apply (agrees_accept (ends.foreign (by decide))).bind
  rintro _ left' suffix (⟨word, rfl, rfl, -⟩ | ⟨rfl, rfl⟩)
  · have shorter' : Shorter tokens left' := shorter.suffix suffix
    apply (readers.expression left' (fits.shorter shorter' (by decide))).bind
    intro value left'' suffix' _
    cases target.assigning? value with
    | some assignment => exact agrees_pure (shorter'.suffix suffix')
    | none =>
        apply agrees_complain.bind
        rintro _ _ - rfl
        exact agrees_pure (shorter'.suffix suffix')
  · exact agrees_pure shorter

omit ends in
theorem joined_agrees {level : Level}
    (fits : Fits tokens (2 * levelHeight level + 4) (depth + 1) (depth' + 1)) :
    (joined (depth + 1) level).Agrees (joined (depth' + 1) level) close tokens
      fun _ => Shorter tokens := by
  rw [joined, joined]
  apply (readers.operand level tokens (fits.deeper (by omega))).bind
  intro left tokens' suffix shorter
  apply (readers.joinedTo level left tokens' (fits.suffix suffix (by omega))).weaken
  exact fun _ _ suffix' _ => shorter.suffix suffix'

omit ends in
theorem operand_agrees {level : Level}
    (fits : Fits tokens (2 * levelHeight level + 3) (depth + 1) (depth' + 1)) :
    (operand (depth + 1) level).Agrees (operand (depth' + 1) level) close tokens
      fun _ => Shorter tokens := by
  rw [operand, operand]
  cases level with
  | factor => exact readers.unary tokens (fits.deeper (by decide))
  | _ => exact readers.joined _ tokens (fits.deeper (by decide))

theorem joinedTo_agrees {level : Level} {left : Expr}
    (fits : Fits tokens 1 (depth + 1) (depth' + 1)) :
    (joinedTo (depth + 1) level left).Agrees (joinedTo (depth' + 1) level left) close tokens
      fun _ _ => True := by
  rw [joinedTo, joinedTo]
  apply (agrees_acceptAs (ends.connective? level) (by cases level <;> rfl)).bind
  rintro _ tokens' suffix (⟨word, connective, rfl, rfl, -⟩ | ⟨rfl, rfl⟩)
  · refine (readers.operand level tokens' (fits.behind List.suffix_rfl ?_)).bind ?_
    · cases level <;> decide
    · intro right tokens'' suffix' _
      exact readers.joinedTo level _ tokens''
        (fits.behind suffix' (by decide))
  · exact agrees_pure trivial

theorem unary_agrees (fits : Fits tokens 2 (depth + 1) (depth' + 1)) :
    (unary (depth + 1)).Agrees (unary (depth' + 1)) close tokens
      fun _ => Shorter tokens := by
  rw [unary, unary]
  apply (agrees_acceptAs ends.unaryOperator rfl).bind
  rintro _ left - (⟨word, operator, rfl, rfl, -⟩ | ⟨rfl, rfl⟩)
  · apply (readers.unary left (fits.behind List.suffix_rfl (by decide))).bind
    intro right left' suffix _
    exact agrees_pure (shorter_cons suffix)
  · apply (readers.primary _ (fits.deeper (by decide))).bind
    intro callee left' suffix shorter
    apply (readers.suffixed callee left' (fits.suffix suffix (by decide))).weaken
    exact fun _ _ suffix' _ => shorter.suffix suffix'

theorem suffixed_agrees {callee : Expr} (fits : Fits tokens 1 (depth + 1) (depth' + 1)) :
    (suffixed (depth + 1) callee).Agrees (suffixed (depth' + 1) callee) close tokens
      fun _ _ => True := by
  rw [suffixed, suffixed]
  apply (agrees_accept (ends.foreign (by decide))).bind
  rintro _ left - (⟨leftParen, rfl, rfl, -⟩ | ⟨rfl, rfl⟩)
  · apply (readers.arguments left (fits.behind List.suffix_rfl (by decide))).bind
    intro arguments left' suffix _
    apply (agrees_expect (ends.foreign (by decide))).bind
    intro rightParen left'' suffix' _
    exact readers.suffixed _ left''
      (fits.behind (suffix'.trans suffix) (by decide))
  · apply (agrees_accept (ends.foreign (by decide))).bind
    rintro _ left - (⟨dot, rfl, rfl, -⟩ | ⟨rfl, rfl⟩)
    · apply (agrees_expect (ends.foreign (by decide))).bind
      intro name left' suffix _
      exact readers.suffixed _ left' (fits.behind suffix (by decide))
    · exact agrees_pure trivial

omit ends in
theorem arguments_agrees (fits : Fits tokens 16 (depth + 1) (depth' + 1)) :
    (arguments (depth + 1)).Agrees (arguments (depth' + 1)) close tokens
      fun _ _ => True := by
  rw [arguments, arguments]
  apply agrees_follows.bind
  rintro _ _ - ⟨rfl, rfl⟩
  split
  · exact agrees_pure trivial
  · apply (readers.expression _ (fits.deeper (by decide))).bind
    intro first left suffix _
    apply (readers.moreArguments 1 left (fits.suffix suffix (by decide))).bind
    intro others left' _ _
    exact agrees_pure trivial

theorem moreArguments_agrees {count : Nat} (fits : Fits tokens 1 (depth + 1) (depth' + 1)) :
    (moreArguments (depth + 1) count).Agrees (moreArguments (depth' + 1) count) close tokens
      fun _ _ => True := by
  rw [moreArguments, moreArguments]
  apply (agrees_accept (ends.foreign (by decide))).bind
  rintro _ left - (⟨comma, rfl, rfl, -⟩ | ⟨rfl, rfl⟩)
  · have further : (do
          let argument ← expression depth
          let others ← moreArguments depth (count + 1)
          pure (argument :: others) : Reader (List Expr)).Agrees (do
          let argument ← expression depth'
          let others ← moreArguments depth' (count + 1)
          pure (argument :: others)) close left fun _ _ => True := by
      apply (readers.expression left (fits.behind List.suffix_rfl (by decide))).bind
      intro argument left' suffix _
      apply (readers.moreArguments (count + 1) left'
        (fits.behind suffix (by decide))).bind
      exact fun _ _ _ _ => agrees_pure trivial
    dsimp only
    split
    · apply agrees_next.bind
      rintro word _ - ⟨-, rfl⟩
      apply agrees_complain.bind
      rintro _ _ - rfl
      exact further
    · exact further
  · exact agrees_pure trivial

theorem primary_agrees (fits : Fits tokens 1 (depth + 1) (depth' + 1)) :
    (primary (depth + 1)).Agrees (primary (depth' + 1)) close tokens
      fun _ => Shorter tokens := by
  rw [primary, primary]
  apply agrees_next.bind
  rintro _ _ - ⟨rfl, rfl⟩
  split
  case h_1 kind | h_2 kind | h_3 kind | h_4 kind | h_5 kind | h_7 kind | h_8 kind =>
    exact skip_agrees kind (ends.foreign (by decide)) fun _ _ =>
      agrees_pure trivial
  case h_6 kind =>
    apply skip_agrees kind (ends.foreign (by decide))
    intro left _
    apply (agrees_expect (ends.foreign (by decide))).bind
    intro dot left' _ _
    apply (agrees_expect (ends.foreign (by decide))).bind
    exact fun _ _ _ _ => agrees_pure trivial
  case h_9 kind =>
    apply skip_agrees kind (ends.foreign (by decide))
    intro left shorter
    apply (readers.expression left (fits.shorter shorter (by decide))).bind
    intro inner left' _ _
    apply (agrees_expect (ends.foreign (by decide))).bind
    exact fun _ _ _ _ => agrees_pure trivial
  case h_10 => exact agrees_missing

end Expressions

theorem expressionsAgree (ends : EndsExpression close) :
    ∀ depth depth', ExpressionsAgree close depth depth'
  | 0, _ | _, 0 => by
      constructor <;> intros <;> rename_i fits <;> exact absurd fits (by unfold Fits; omega)
  | depth + 1, depth' + 1 =>
      have readers := expressionsAgree ends depth depth'
      { expression := fun _ fits => expression_agrees ends readers fits
        joined := fun _ _ fits => joined_agrees readers fits
        operand := fun _ _ fits => operand_agrees readers fits
        joinedTo := fun _ _ _ fits => joinedTo_agrees ends readers fits
        unary := fun _ fits => unary_agrees ends readers fits
        suffixed := fun _ _ fits => suffixed_agrees ends readers fits
        arguments := fun _ fits => arguments_agrees readers fits
        moreArguments := fun _ _ fits => moreArguments_agrees ends readers fits
        primary := fun _ fits => primary_agrees ends readers fits }

end LoxLang.Reader
