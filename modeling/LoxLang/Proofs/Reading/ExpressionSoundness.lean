import LoxLang.Proofs.Grammar.Expression
import LoxLang.Proofs.Reading.Conduct

/-! # Expressions that are read are derivable

An expression reader that notes no fault has read a phrase of the grammar and delivers its
tree. The readers call one another, so all are treated together, by induction on the depth
of descent. The depth never runs out: every reader needs 32 units for each token still in
the stream, and a few more until the next token is taken.
-/

namespace LoxLang.Reader

open Grammar

def levelHeight : Level → Nat
  | .disjunction => 5
  | .conjunction => 4
  | .equality => 3
  | .comparison => 2
  | .term => 1
  | .factor => 0

/-- The depth of descent suffices for the rest of the stream, with `extra` units to
spare. -/
structure Room (stream : Stream) (extra depth : Nat) : Prop where
  bound : 32 * stream.rest.length + extra ≤ depth

section Room

variable {stream : Stream} {extra depth needed : Nat}

theorem Room.mono (room : Room stream extra depth) {deeper : Nat}
    (enough : needed + depth ≤ extra + deeper) : Room stream needed deeper :=
  ⟨by have bound := room.bound; omega⟩

theorem Room.after {after : Stream} {taken : List Occurrence}
    {added : List ReadingFault} (room : Room stream extra (depth + 1))
    (reads : stream.Reads after taken added)
    (enough : needed < extra + 32 * taken.length) : Room after needed depth := by
  have length := reads.length
  have bound := room.bound
  exact ⟨by omega⟩

theorem Room.deeper (room : Room stream extra (depth + 1)) (enough : needed < extra) :
    Room stream needed depth :=
  room.mono (by omega)

end Room

def IsPhrase (phrase : ExpressionPhrase) (taken : List Occurrence)
    (added : List ReadingFault) (tree : phrase.Tree) (_ : Stream) : Prop :=
  taken ≠ [] ∧ (added = [] → Expression phrase taken tree)

def Continues (phrase : ExpressionPhrase) (left : phrase.Tree) (taken : List Occurrence)
    (added : List ReadingFault) (tree : phrase.Tree) (_ : Stream) : Prop :=
  added = [] → ∀ before, Expression phrase before left →
    Expression phrase (before ++ taken) tree

structure ExpressionsSound (depth : Nat) : Prop where
  expression : ∀ stream, Room stream 15 depth →
    (expression depth).Meets stream (IsPhrase .expression)
  joined : ∀ level stream, Room stream (2 * levelHeight level + 4) depth →
    (joined depth level).Meets stream (IsPhrase (.joined level))
  operand : ∀ level stream, Room stream (2 * levelHeight level + 3) depth →
    (operand depth level).Meets stream (IsPhrase (.operand level))
  joinedTo : ∀ level left stream, Room stream 1 depth →
    (joinedTo depth level left).Meets stream (Continues (.joined level) left)
  unary : ∀ stream, Room stream 2 depth → (unary depth).Meets stream (IsPhrase .unary)
  suffixed : ∀ callee stream, Room stream 1 depth →
    (suffixed depth callee).Meets stream (Continues .call callee)
  arguments : ∀ stream, Room stream 16 depth →
    (arguments depth).Meets stream fun taken added list _ =>
      added = [] → Expression .arguments taken list ∧ list.length ≤ 255
  moreArguments : ∀ count stream, Room stream 1 depth →
    (moreArguments depth count).Meets stream fun taken added list _ =>
      added = [] → Expression .furtherArguments taken list ∧
        (count ≤ 255 → count + list.length ≤ 255)
  primary : ∀ stream, Room stream 1 depth →
    (primary depth).Meets stream (IsPhrase .primary)

variable {depth : Nat} {stream : Stream}

/-! ## Operators -/

theorem mem_operators_of_connective? {level : Level} {kind : Kind}
    {connective : Connective} (found : level.connective? kind = some connective) :
    (kind, fun left word right => connective.join left word right) ∈ operators level := by
  cases level <;> simp only [Level.connective?] at found <;> split at found <;>
    simp_all [operators, Connective.join] <;> subst found <;> simp

theorem mem_unaryOperators_of_ofKind? {kind : Kind} {operator : UnaryOperator}
    (found : UnaryOperator.ofKind? kind = some operator) :
    (kind, operator) ∈ unaryOperators := by
  unfold UnaryOperator.ofKind? at found
  split at found <;> simp_all [unaryOperators]

/-! ## Assignments -/

section Targets

variable {tokens : List Occurrence} {target value assignment : Expr}

private theorem call_of_joined {level : Level}
    (operand : Expression (.operand level) tokens target → Expression .call tokens target)
    (phrase : Expression (.joined level) tokens target)
    (assigning : target.assigning? value = some assignment) :
    Expression .call tokens target := by
  cases phrase with
  | single phrase => exact operand phrase
  | further _ wordKind _ =>
      obtain ⟨operator, rfl⟩ | ⟨operator, rfl⟩ := build_of_mem_operators wordKind <;>
        simp [Expr.assigning?] at assigning

theorem call_of_assigning? (phrase : Expression (.joined .disjunction) tokens target)
    (assigning : target.assigning? value = some assignment) :
    Expression .call tokens target := by
  refine call_of_joined (fun | .conjunction phrase => ?_) phrase assigning
  refine call_of_joined (fun | .equality phrase => ?_) phrase assigning
  refine call_of_joined (fun | .comparison phrase => ?_) phrase assigning
  refine call_of_joined (fun | .term phrase => ?_) phrase assigning
  refine call_of_joined (fun | .factor phrase => ?_) phrase assigning
  refine call_of_joined (fun | .unary phrase => ?_) phrase assigning
  cases phrase with
  | unaryOperator _ _ => simp [Expr.assigning?] at assigning
  | call phrase => exact phrase

theorem expression_of_assigning? {equal : Occurrence} {rest : List Occurrence}
    (targetPhrase : Expression (.joined .disjunction) tokens target)
    (equalKind : equal.kind = Symbol.equal)
    (valuePhrase : Expression .expression rest value)
    (assigning : target.assigning? value = some assignment) :
    Expression .expression (tokens ++ equal :: rest) assignment := by
  have call := call_of_assigning? targetPhrase assigning
  cases target with
  | «variable» name =>
      obtain rfl : Expr.assign name value = assignment := by
          simpa [Expr.assigning?] using assigning
      cases call with
      | primary phrase =>
          cases phrase with
          | «variable» nameKind => exact .assignVariable nameKind equalKind valuePhrase
  | get object name =>
      obtain rfl : Expr.set object name value = assignment := by
        simpa [Expr.assigning?] using assigning
      cases call with
      | primary phrase => cases phrase
      | callProperty objectPhrase dotKind nameKind =>
          simpa using Expression.assignProperty objectPhrase dotKind nameKind equalKind
            valuePhrase
  | _ => simp [Expr.assigning?] at assigning

end Targets

theorem expression_sound (readers : ExpressionsSound depth)
    (room : Room stream 15 (depth + 1)) :
    (expression (depth + 1)).Meets stream (IsPhrase .expression) := by
  rw [expression]
  apply (readers.joined .disjunction stream (room.deeper (by decide))).bind
  rintro taken added target after reads ⟨nonempty, targetPhrase⟩
  refine meets_of_accept ?_ ?_
  · intro word after' word_reads word_kind
    apply (readers.expression after' (room.after (reads.trans word_reads) (by simp))).bind
    rintro taken' added' value after'' reads' ⟨nonempty', valuePhrase⟩
    cases assigning : target.assigning? value with
    | some assignment =>
        refine meets_pure ⟨by simp, fun clean => ?_⟩
        simp at clean
        simpa using expression_of_assigning? (targetPhrase clean.1) word_kind
          (valuePhrase clean.2) assigning
    | none =>
        refine meets_of_complain fun after _ => meets_pure ⟨by simp, fun clean => ?_⟩
        simp at clean
  · intro _
    refine meets_pure ⟨by simpa using nonempty, fun clean => ?_⟩
    simpa using Expression.unassigned (targetPhrase (by simpa using clean))

theorem joined_sound {level : Level} (readers : ExpressionsSound depth)
    (room : Room stream (2 * levelHeight level + 4) (depth + 1)) :
    (joined (depth + 1) level).Meets stream (IsPhrase (.joined level)) := by
  rw [joined]
  apply (readers.operand level stream (room.deeper (by omega))).bind
  rintro taken added left after reads ⟨nonempty, leftPhrase⟩
  apply (readers.joinedTo level left after (room.after reads (by omega))).weaken
  intro taken' added' tree _ _ continues
  refine ⟨by simp [nonempty], fun clean => ?_⟩
  simp only [List.append_eq_nil_iff] at clean
  exact continues clean.2 taken (.single (leftPhrase clean.1))

theorem operand_sound {level : Level} (readers : ExpressionsSound depth)
    (room : Room stream (2 * levelHeight level + 3) (depth + 1)) :
    (operand (depth + 1) level).Meets stream (IsPhrase (.operand level)) := by
  rw [operand]
  cases level with
  | factor =>
      apply (readers.unary stream (room.deeper (by decide))).weaken
      exact fun _ _ _ _ _ phrase => ⟨phrase.1, fun clean => .unary (phrase.2 clean)⟩
  | disjunction =>
      apply (readers.joined _ stream (room.deeper (by decide))).weaken
      exact fun _ _ _ _ _ phrase => ⟨phrase.1, fun clean => .conjunction (phrase.2 clean)⟩
  | conjunction =>
      apply (readers.joined _ stream (room.deeper (by decide))).weaken
      exact fun _ _ _ _ _ phrase => ⟨phrase.1, fun clean => .equality (phrase.2 clean)⟩
  | equality =>
      apply (readers.joined _ stream (room.deeper (by decide))).weaken
      exact fun _ _ _ _ _ phrase => ⟨phrase.1, fun clean => .comparison (phrase.2 clean)⟩
  | comparison =>
      apply (readers.joined _ stream (room.deeper (by decide))).weaken
      exact fun _ _ _ _ _ phrase => ⟨phrase.1, fun clean => .term (phrase.2 clean)⟩
  | term =>
      apply (readers.joined _ stream (room.deeper (by decide))).weaken
      exact fun _ _ _ _ _ phrase => ⟨phrase.1, fun clean => .factor (phrase.2 clean)⟩

theorem joinedTo_sound {level : Level} {left : Expr} (readers : ExpressionsSound depth)
    (room : Room stream 1 (depth + 1)) :
    (joinedTo (depth + 1) level left).Meets stream (Continues (.joined level) left) := by
  rw [joinedTo]
  refine meets_of_acceptAs (by cases level <;> rfl) ?_ ?_
  · intro word connective after reads found
    refine (readers.operand level after
      (room.after reads (by cases level <;> simp [levelHeight]))).bind ?_
    rintro taken added right after' reads' ⟨_, rightPhrase⟩
    apply (readers.joinedTo level _ after'
      (room.after (reads.trans reads') (by simp))).weaken
    intro taken' added' tree _ _ continues clean before leftPhrase
    simp only [List.append_eq_nil_iff] at clean
    have further := Expression.further leftPhrase (mem_operators_of_connective? found)
      (rightPhrase clean.1)
    simpa using continues clean.2 _ further
  · intro _
    exact meets_pure fun _ before leftPhrase => by simpa using leftPhrase

theorem unary_sound (readers : ExpressionsSound depth)
    (room : Room stream 2 (depth + 1)) :
    (unary (depth + 1)).Meets stream (IsPhrase .unary) := by
  rw [unary]
  refine meets_of_acceptAs rfl ?_ ?_
  · intro word operator after reads found
    apply (readers.unary after (room.after reads (by simp))).bind
    rintro taken added right after' reads' ⟨_, rightPhrase⟩
    refine meets_pure ⟨by simp, fun clean => ?_⟩
    simpa using Expression.unaryOperator (mem_unaryOperators_of_ofKind? found)
      (rightPhrase (by simpa using clean))
  · intro _
    apply (readers.primary stream (room.deeper (by omega))).bind
    rintro taken added callee after reads ⟨nonempty, calleePhrase⟩
    apply (readers.suffixed callee after (room.after reads (by omega))).weaken
    intro taken' added' tree _ _ continues
    refine ⟨by simp [nonempty], fun clean => ?_⟩
    simp only [List.append_eq_nil_iff] at clean
    exact .call (continues clean.2 taken (.primary (calleePhrase clean.1)))

theorem suffixed_sound {callee : Expr} (readers : ExpressionsSound depth)
    (room : Room stream 1 (depth + 1)) :
    (suffixed (depth + 1) callee).Meets stream (Continues .call callee) := by
  rw [suffixed]
  refine meets_of_accept ?_ ?_
  · intro leftParen after reads leftParenKind
    apply (readers.arguments after (room.after reads (by simp))).bind
    intro taken added list after' reads' argumentsPhrase
    refine meets_of_expect ?_
    intro rightParen after'' reads'' rightParenKind
    refine (readers.suffixed _ after''
      (room.after ((reads.trans reads').trans reads'') (by simp))).weaken ?_
    intro taken' added' tree _ _ continues clean before calleePhrase
    simp only [List.append_eq_nil_iff] at clean
    rcases argumentsPhrase clean.1 with ⟨argumentsPhrase, bound⟩
    have call := Expression.callArguments calleePhrase leftParenKind argumentsPhrase bound
      rightParenKind
    simpa using continues clean.2 _ call
  · intro _
    refine meets_of_accept ?_ ?_
    · intro dot after reads dotKind
      refine meets_of_expect ?_
      intro name after' reads' nameKind
      apply (readers.suffixed _ after' (room.after (reads.trans reads') (by simp))).weaken
      intro taken' added' tree _ _ continues clean before objectPhrase
      simpa using continues clean _ (Expression.callProperty objectPhrase dotKind
        nameKind)
    · intro _
      exact meets_pure fun _ before calleePhrase => by simpa using calleePhrase

theorem arguments_sound (readers : ExpressionsSound depth)
    (room : Room stream 16 (depth + 1)) :
    (arguments (depth + 1)).Meets stream fun taken added list _ =>
      added = [] → Expression .arguments taken list ∧ list.length ≤ 255 := by
  rw [arguments]
  refine meets_of_follows fun word _ => ?_
  split
  · exact meets_pure fun _ => ⟨.noArguments, by simp⟩
  · apply (readers.expression stream (room.deeper (by omega))).bind
    rintro taken added first after reads ⟨nonempty, firstPhrase⟩
    apply (readers.moreArguments 1 after (room.after reads (by omega))).bind
    intro taken' added' others after' reads' othersPhrase
    refine meets_pure fun clean => ?_
    simp only [List.append_nil, List.append_eq_nil_iff] at clean
    rcases othersPhrase clean.2 with ⟨othersPhrase, bound⟩
    exact ⟨by simpa using Expression.someArguments (firstPhrase clean.1) othersPhrase,
      by simpa [Nat.add_comm] using bound (by simp)⟩

private theorem furtherArgument_sound {comma : Occurrence} {count : Nat}
    (readers : ExpressionsSound depth) (room : Room stream 15 depth)
    (commaKind : comma.kind = Symbol.comma) :
    (do
      let argument ← expression depth
      let others ← moreArguments depth (count + 1)
      pure (argument :: others) : Reader (List Expr)).Meets stream
        fun taken added list _ =>
        added = [] → Expression .furtherArguments (comma :: taken) list ∧
          (count + 1 ≤ 255 → count + list.length ≤ 255) := by
  apply (readers.expression stream room).bind
  rintro taken added argument after reads ⟨_, argumentPhrase⟩
  have room : Room stream 15 (depth + 1) := room.mono (by omega)
  apply (readers.moreArguments (count + 1) after (room.after reads (by omega))).bind
  intro taken' added' others after' _ othersPhrase
  refine meets_pure fun clean => ?_
  simp only [List.append_nil, List.append_eq_nil_iff] at clean
  rcases othersPhrase clean.2 with ⟨othersPhrase, bound⟩
  have phrase :=
    Expression.furtherArgument commaKind (argumentPhrase clean.1) othersPhrase
  refine ⟨by simpa using phrase, fun small => ?_⟩
  have bound := bound small
  simp only [List.length_cons]
  omega

theorem moreArguments_sound {count : Nat} (readers : ExpressionsSound depth)
    (room : Room stream 1 (depth + 1)) :
    (moreArguments (depth + 1) count).Meets stream fun taken added list _ =>
      added = [] → Expression .furtherArguments taken list ∧
        (count ≤ 255 → count + list.length ≤ 255) := by
  rw [moreArguments]
  refine meets_of_accept ?_ ?_
  · intro comma after reads commaKind
    dsimp only
    split
    case isTrue tooMany =>
      refine meets_of_next fun word _ => meets_of_complain fun after' reads' => ?_
      refine (furtherArgument_sound readers (room.after (reads.trans reads') (by simp))
        commaKind).weaken ?_
      intro _ _ _ _ _ _ clean
      simp at clean
    case isFalse few =>
      apply (furtherArgument_sound readers (room.after reads (by simp)) commaKind).weaken
      intro _ _ _ _ _ phrase clean
      refine ⟨(phrase clean).1, fun _ => (phrase clean).2 ?_⟩
      simp only [listLimit] at few
      omega
  · intro _
    exact meets_pure fun _ => ⟨.noFurtherArguments, by simp⟩

private theorem word_sound {word : Occurrence} {tree : Expr}
    (front : word ∈ stream.rest.head?) (inside : word.kind ≠ .endOfInput)
    (phrase : Expression .primary [word] tree) :
    (do skip; pure tree : Reader Expr).Meets stream (IsPhrase .primary) := by
  refine meets_of_skip front inside fun after _ => ?_
  exact meets_pure ⟨by simp, fun _ => phrase⟩

theorem primary_sound (readers : ExpressionsSound depth)
    (room : Room stream 1 (depth + 1)) :
    (primary (depth + 1)).Meets stream (IsPhrase .primary) := by
  rw [primary]
  refine meets_of_next fun word front => ?_
  split
  case h_1 kind => exact word_sound front (by simp [kind]) (.falseLiteral kind)
  case h_2 kind => exact word_sound front (by simp [kind]) (.trueLiteral kind)
  case h_3 kind => exact word_sound front (by simp [kind]) (.nilLiteral kind)
  case h_4 kind => exact word_sound front (by simp [kind]) (.number kind)
  case h_5 kind => exact word_sound front (by simp [kind]) (.string kind)
  case h_7 kind => exact word_sound front (by simp [kind]) (.this kind)
  case h_8 kind => exact word_sound front (by simp [kind]) (.variable kind)
  case h_6 keywordKind =>
    refine meets_of_skip front (by simp [keywordKind]) fun after _ => ?_
    refine meets_of_expect fun dot after' _ dotKind => ?_
    refine meets_of_expect fun method after'' _ methodKind => ?_
    exact meets_pure ⟨by simp, fun _ => .super keywordKind dotKind methodKind⟩
  case h_9 leftParenKind =>
    refine meets_of_skip front (by simp [leftParenKind]) fun after reads => ?_
    refine (readers.expression after (room.after reads (by simp))).bind ?_
    rintro taken added inner after' _ ⟨_, innerPhrase⟩
    refine meets_of_expect fun rightParen after'' _ rightParenKind => ?_
    refine meets_pure ⟨by simp, fun clean => ?_⟩
    exact .grouping leftParenKind (innerPhrase (by simpa using clean)) rightParenKind
  case h_10 => exact meets_missing

/-- At every depth of descent the readers deliver what they read, as long as there is
room. -/
theorem expressionsSound : ∀ depth, ExpressionsSound depth
  | 0 => by
      constructor <;> intros <;> rename_i room <;> exact absurd room.1 (by omega)
  | depth + 1 =>
      have readers := expressionsSound depth
      { expression := fun _ room => expression_sound readers room
        joined := fun _ _ room => joined_sound readers room
        operand := fun _ _ room => operand_sound readers room
        joinedTo := fun _ _ _ room => joinedTo_sound readers room
        unary := fun _ room => unary_sound readers room
        suffixed := fun _ _ room => suffixed_sound readers room
        arguments := fun _ room => arguments_sound readers room
        moreArguments := fun _ _ room => moreArguments_sound readers room
        primary := fun _ room => primary_sound readers room }

end LoxLang.Reader
