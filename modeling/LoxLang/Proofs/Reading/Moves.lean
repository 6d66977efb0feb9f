import LoxLang.Proofs.Tree.Moves
import LoxLang.Proofs.Reading.StatementSoundness
import LoxLang.Reading.Statement

/-! # Reading moved words

Readers look at the kinds of tokens only, and take literals over. So a stream of other
words of the same kinds is read in the same way: it comes to the same trees with the other
words in them, and to the same faults at the other words, whether the text can be read as
a whole or some of its declarations have to be abandoned.
-/

namespace LoxLang

structure SameKinds (move : Occurrence → Occurrence) : Prop where
  kind : ∀ word, (move word).kind = word.kind
  literal : ∀ word, (move word).literal = word.literal

theorem SameWords.sameKinds {move : Occurrence → Occurrence} (same : SameWords move) :
    SameKinds move := ⟨same.kind, same.literal⟩

section Trees

variable (move : Occurrence → Occurrence)

def ReadingFault.map (fault : ReadingFault) : ReadingFault :=
  ⟨move fault.token, fault.cause⟩

def Stream.map (more : List Occurrence) (stream : Stream) : Stream :=
  ⟨stream.rest.map move ++ more, stream.faults.map (ReadingFault.map move)⟩

theorem Stmt.mapAll_append (first second : List Stmt) :
    Stmt.mapAll move (first ++ second) =
      Stmt.mapAll move first ++ Stmt.mapAll move second := by
  induction first with
  | nil => rfl
  | cons statement rest induction => rw [List.cons_append, mapAll, induction]; rfl

theorem Stmt.mapAll_toList (statement : Option Stmt) :
    Stmt.mapAll move statement.toList = (statement.map (Stmt.map move)).toList := by
  cases statement <;> rfl

theorem Stmt.map_ifThen (condition : Expr) (thenBranch : Stmt)
    (elseBranch : Option Stmt) :
    Stmt.map move (.ifThen condition thenBranch elseBranch) =
      .ifThen (condition.map move) (thenBranch.map move)
        (elseBranch.map (Stmt.map move)) := by
  cases elseBranch <;> rfl

theorem Stmt.map_forLoop (initializer : Option Stmt) (condition increment : Option Expr)
    (body : Stmt) :
    Stmt.map move (.forLoop initializer condition increment body) =
      .forLoop (initializer.map (Stmt.map move)) (condition.map (Expr.map move))
        (increment.map (Expr.map move)) (body.map move) := by
  cases initializer <;> cases condition <;> cases increment <;> rfl

theorem Expr.map_join (connective : Connective) (left right : Expr) (word : Occurrence) :
    (connective.join left word right).map move =
      connective.join (left.map move) (move word) (right.map move) := by
  cases connective <;> rfl

theorem Expr.assigning?_map (target value : Expr) :
    (target.map move).assigning? (value.map move) =
      (target.assigning? value).map (Expr.map move) := by
  cases target <;> rfl

end Trees

namespace Reader

variable {move : Occurrence → Occurrence} {more : List Occurrence} {α α' β β' : Type}

/-! ## Readers that move along -/

/-- The second reader does on the moved stream what the first does, with a result that is
moved too. Where the first runs out of tokens this holds only if no tokens stand behind
the moved ones. -/
def Moves (move : Occurrence → Occurrence) (more : List Occurrence) (transform : α → α')
    (reader : Reader α) (moved : Reader α') : Prop :=
  ∀ stream : Stream,
    match reader stream with
    | .ok result after =>
        moved (stream.map move more) = .ok (transform result) (after.map move more)
    | .error .pastEnd after => after.rest = [] ∧
        (more = [] → moved (stream.map move more) = .error .pastEnd (after.map move more))
    | .error stop after =>
        moved (stream.map move more) = .error stop (after.map move more)

section Combinators

variable {transform : α → α'} {between : β → β'}

theorem moves_pure (result : α) :
    Moves move more transform (pure result) (pure (transform result)) := fun _ => rfl

theorem moves_abandon : Moves move more transform abandon abandon := fun _ => rfl

theorem moves_tooDeep : Moves move more transform tooDeep tooDeep := fun _ => rfl

theorem Moves.bind {first : Reader β} {first' : Reader β'} {second : β → Reader α}
    {second' : β' → Reader α'} (moves : Moves move more between first first')
    (later : ∀ result,
      Moves move more transform (second result) (second' (between result))) :
    Moves move more transform (first >>= second) (first' >>= second') := by
  intro stream
  have moves := moves stream
  cases outcome : first stream with
  | ok result after =>
      rw [outcome] at moves
      rw [bind_of_ok moves rfl, bind_of_ok outcome rfl]
      exact later result after
  | error stop after =>
      rw [outcome] at moves
      rw [bind_of_error outcome]
      cases stop with
      | pastEnd => exact ⟨moves.1, fun alone => bind_of_error (moves.2 alone)⟩
      | abandoned | tooDeep => exact bind_of_error moves

theorem Moves.map {reader : Reader β} {reader' : Reader β'} {use : β → α}
    {use' : β' → α'} (moves : Moves move more between reader reader')
    (same : ∀ result, use' (between result) = transform (use result)) :
    Moves move more transform (use <$> reader) (use' <$> reader') := by
  rw [map_eq_pure_bind, map_eq_pure_bind]
  apply moves.bind
  intro result
  rw [same]
  exact moves_pure (use result)

theorem Moves.mapSome {reader : Reader α} {reader' : Reader α'}
    (moves : Moves move more transform reader reader') :
    Moves move more (Option.map transform) (some <$> reader) (some <$> reader') :=
  moves.map fun _ => rfl

end Combinators

/-! ## Single steps -/

section Steps

variable (same : SameKinds move)

theorem moves_next : Moves move more move next next := by
  rintro ⟨rest, faults⟩
  cases rest with
  | nil => exact ⟨rfl, fun alone => by rw [alone]; rfl⟩
  | cons => rfl

theorem moves_complain (token : Occurrence) (cause : ReadingCause) :
    Moves move more id (complain token cause) (complain (move token) cause) := by
  intro stream
  simp only [complain, Stream.map, Array.map_push]
  rfl

theorem moves_missing (transform : α → α') (expectation : Expectation) :
    Moves move more transform (missing expectation) (missing expectation) :=
  moves_next.bind fun token => (moves_complain token _).bind fun _ => moves_abandon

include same

theorem moves_follows (kind : Kind) :
    Moves move more id (follows kind) (follows kind) := by
  apply moves_next.bind
  intro token
  rw [same.kind]
  exact moves_pure _

theorem moves_atEnd : Moves move more id atEnd atEnd := moves_follows same .endOfInput

theorem moves_skip : Moves move more id skip skip := by
  rintro ⟨rest, faults⟩
  cases rest with
  | nil => exact ⟨rfl, fun alone => by rw [alone]; rfl⟩
  | cons token rest =>
      by_cases final : token.kind = .endOfInput
      · rw [skip_end final]
        exact skip_end (by rwa [same.kind])
      · rw [skip_front final]
        exact skip_front (by rwa [same.kind])

theorem moves_acceptAs (choose : Kind → Option β) :
    Moves move more (Option.map (Prod.map id move)) (acceptAs choose) (acceptAs choose) := by
  apply moves_next.bind
  intro token
  rw [same.kind]
  cases choose token.kind with
  | none => exact moves_pure none
  | some use => exact (moves_skip same).bind fun _ => moves_pure (some (use, token))

theorem moves_accept (kind : Kind) :
    Moves move more (Option.map move) (accept kind) (accept kind) := by
  apply (moves_acceptAs same _).bind
  intro found
  cases found <;> exact moves_pure _

theorem moves_expect (kind : Kind) (expectation : Expectation) :
    Moves move more move (expect kind expectation) (expect kind expectation) := by
  apply (moves_accept same kind).bind
  intro found
  cases found with
  | none => exact moves_missing move expectation
  | some token => exact moves_pure token

theorem resumption_map {rest : List Occurrence}
    (found : more = [] ∨ resumption rest ≠ []) :
    resumption (rest.map move ++ more) = (resumption rest).map move ++ more := by
  induction rest with
  | nil =>
      obtain rfl : more = [] := found.resolve_right (not_not_intro rfl)
      rfl
  | cons skipped rest induction =>
      rw [resumption] at found ⊢
      rw [List.map_cons, List.cons_append, resumption, same.kind]
      by_cases final : skipped.kind = .endOfInput
      · rw [if_pos final, if_pos final]
        rfl
      rw [if_neg final] at found
      rw [if_neg final, if_neg final]
      cases rest with
      | nil =>
          obtain rfl : more = [] := found.resolve_right (by simp [resumption])
          simp [resumption]
      | cons next rest =>
          have starts : ((next :: rest).map move ++ more).head?.any
              (·.kind.startsStatement) =
                (next :: rest).head?.any (·.kind.startsStatement) :=
            congrArg Kind.startsStatement (same.kind next)
          rw [starts]
          split at found
          case isTrue stop => rw [if_pos stop, if_pos stop]
          case isFalse further =>
            rw [if_neg further, if_neg further]
            exact induction found

theorem moves_resume : Moves move more id resume resume := by
  rintro ⟨rest, faults⟩
  cases ahead : resumption rest with
  | nil =>
      rw [resume_of_nil ahead]
      refine ⟨rfl, ?_⟩
      rintro rfl
      apply resume_of_nil
      rw [resumption_map same (.inl rfl), ahead]
      rfl
  | cons token later =>
      have found : resumption rest ≠ [] := by
        rw [ahead]
        exact List.cons_ne_nil token later
      rw [resume_of_cons ahead]
      apply resume_of_cons
      rw [resumption_map same (.inr found), ahead]
      rfl

end Steps

/-! ## Expressions -/

structure ExpressionsMove (move : Occurrence → Occurrence) (more : List Occurrence)
    (depth : Nat) : Prop where
  expression : Moves move more (Expr.map move) (expression depth) (expression depth)
  joined : ∀ level, Moves move more (Expr.map move) (joined depth level) (joined depth level)
  operand : ∀ level,
    Moves move more (Expr.map move) (operand depth level) (operand depth level)
  joinedTo : ∀ level left, Moves move more (Expr.map move) (joinedTo depth level left)
    (joinedTo depth level (left.map move))
  unary : Moves move more (Expr.map move) (unary depth) (unary depth)
  suffixed : ∀ callee, Moves move more (Expr.map move) (suffixed depth callee)
    (suffixed depth (callee.map move))
  arguments : Moves move more (Expr.mapAll move) (arguments depth) (arguments depth)
  moreArguments : ∀ count, Moves move more (Expr.mapAll move) (moreArguments depth count)
    (moreArguments depth count)
  primary : Moves move more (Expr.map move) (primary depth) (primary depth)

section Expressions

variable {depth : Nat} (same : SameKinds move) (inner : ExpressionsMove move more depth)

include same inner

theorem moves_expression :
    Moves move more (Expr.map move) (expression (depth + 1)) (expression (depth + 1)) := by
  rw [expression]
  apply (inner.joined .disjunction).bind
  intro target
  apply (moves_accept same Symbol.equal).bind
  intro found
  cases found with
  | none => exact moves_pure target
  | some word =>
      apply inner.expression.bind
      intro value
      rw [Expr.assigning?_map]
      cases target.assigning? value with
      | some assignment => exact moves_pure assignment
      | none => exact (moves_complain word .invalidTarget).bind fun _ => moves_pure target

theorem moves_joinedTo (level : Level) (left : Expr) :
    Moves move more (Expr.map move) (joinedTo (depth + 1) level left)
      (joinedTo (depth + 1) level (left.map move)) := by
  rw [joinedTo, joinedTo]
  apply (moves_acceptAs same level.connective?).bind
  intro found
  cases found with
  | none => exact moves_pure left
  | some found =>
      rcases found with ⟨connective, word⟩
      apply (inner.operand level).bind
      intro right
      have further := inner.joinedTo level (connective.join left word right)
      rwa [Expr.map_join] at further

theorem moves_unary :
    Moves move more (Expr.map move) (unary (depth + 1)) (unary (depth + 1)) := by
  rw [unary]
  apply (moves_acceptAs same UnaryOperator.ofKind?).bind
  intro found
  cases found with
  | some found =>
      exact inner.unary.bind fun right => moves_pure (Expr.unary found.1 found.2 right)
  | none => exact inner.primary.bind inner.suffixed

theorem moves_suffixed (callee : Expr) :
    Moves move more (Expr.map move) (suffixed (depth + 1) callee)
      (suffixed (depth + 1) (callee.map move)) := by
  rw [suffixed, suffixed]
  apply (moves_accept same Symbol.leftParen).bind
  intro found
  cases found with
  | some =>
      apply inner.arguments.bind
      intro arguments
      apply (moves_expect same Symbol.rightParen .argumentsEnd).bind
      intro paren
      exact inner.suffixed (.call callee paren arguments)
  | none =>
      apply (moves_accept same Symbol.dot).bind
      intro found
      cases found with
      | some =>
          apply (moves_expect same .identifier .propertyName).bind
          intro name
          exact inner.suffixed (.get callee name)
      | none => exact moves_pure callee

theorem moves_arguments :
    Moves move more (Expr.mapAll move) (arguments (depth + 1)) (arguments (depth + 1)) := by
  rw [arguments]
  apply (moves_follows same Symbol.rightParen).bind
  intro ended
  cases ended with
  | true => exact moves_pure []
  | false =>
      apply inner.expression.bind
      intro first
      apply (inner.moreArguments 1).bind
      intro others
      exact moves_pure (first :: others)

theorem moves_moreArguments (count : Nat) :
    Moves move more (Expr.mapAll move) (moreArguments (depth + 1) count)
      (moreArguments (depth + 1) count) := by
  rw [moreArguments]
  apply (moves_accept same Symbol.comma).bind
  intro found
  cases found with
  | none => exact moves_pure []
  | some =>
      have rest : Moves move more (Expr.mapAll move)
          (do
            let argument ← expression depth
            let others ← moreArguments depth (count + 1)
            pure (argument :: others))
          (do
            let argument ← expression depth
            let others ← moreArguments depth (count + 1)
            pure (argument :: others)) := by
        apply inner.expression.bind
        intro argument
        apply (inner.moreArguments (count + 1)).bind
        intro others
        exact moves_pure (argument :: others)
      by_cases tooMany : listLimit ≤ count
      · simp only [Option.map_some, if_pos tooMany]
        apply moves_next.bind
        intro token
        exact (moves_complain token .tooManyArguments).bind fun _ => rest
      · simp only [Option.map_some, if_neg tooMany]
        exact rest

theorem moves_primary :
    Moves move more (Expr.map move) (primary (depth + 1)) (primary (depth + 1)) := by
  have literal (value : Literal) : Moves move more (Expr.map move)
      (do skip; pure (.literal value)) (do skip; pure (.literal value)) :=
    (moves_skip same).bind fun _ => moves_pure (Expr.literal value)
  rw [primary]
  apply moves_next.bind
  intro word
  rw [same.kind, same.literal]
  split
  case h_1 | h_2 | h_3 | h_4 | h_5 => exact literal _
  case h_6 =>
      apply (moves_skip same).bind
      intro _
      apply (moves_expect same Symbol.dot .superDot).bind
      intro _
      apply (moves_expect same .identifier .superMethod).bind
      intro method
      exact moves_pure (Expr.super word method)
  case h_7 => exact (moves_skip same).bind fun _ => moves_pure (Expr.this word)
  case h_8 => exact (moves_skip same).bind fun _ => moves_pure (Expr.variable word)
  case h_9 =>
      apply (moves_skip same).bind
      intro _
      apply inner.expression.bind
      intro grouped
      apply (moves_expect same Symbol.rightParen .groupingEnd).bind
      intro _
      exact moves_pure (Expr.grouping grouped)
  case h_10 => exact moves_missing _ .expression

end Expressions

theorem expressionsMove (same : SameKinds move) (more : List Occurrence) (depth : Nat) :
    ExpressionsMove move more depth := by
  induction depth with
  | zero =>
      constructor <;> intros <;> exact moves_tooDeep
  | succ depth inner =>
      exact {
        expression := moves_expression same inner
        joined := by
          intro level
          rw [joined]
          exact (inner.operand level).bind (inner.joinedTo level)
        operand := by
          intro level
          rw [operand]
          cases level.tighter? with
          | some tighter => exact inner.joined tighter
          | none => exact inner.unary
        joinedTo := moves_joinedTo same inner
        unary := moves_unary same inner
        suffixed := moves_suffixed same inner
        arguments := moves_arguments same inner
        moreArguments := moves_moreArguments same inner
        primary := moves_primary same inner }

/-! ## Parts of statements -/

section Parts

variable {depth : Nat} (same : SameKinds move)

include same

theorem moves_expressionUnless (kind : Kind) :
    Moves move more (Option.map (Expr.map move)) (expressionUnless kind depth)
      (expressionUnless kind depth) := by
  rw [expressionUnless]
  apply (moves_follows same kind).bind
  intro ended
  cases ended with
  | true => exact moves_pure none
  | false => exact (expressionsMove same more depth).expression.mapSome

theorem moves_upToSemicolon (expectation : Expectation) {build : Expr → Stmt}
    (built : ∀ expression : Expr,
      (build expression).map move = build (expression.map move)) :
    Moves move more (Stmt.map move)
      (do
        let expression ← expression depth
        let _ ← expect Symbol.semicolon expectation
        pure (build expression))
      (do
        let expression ← expression depth
        let _ ← expect Symbol.semicolon expectation
        pure (build expression)) := by
  apply (expressionsMove same more depth).expression.bind
  intro expression
  apply (moves_expect same Symbol.semicolon expectation).bind
  intro _
  rw [← built]
  exact moves_pure (build expression)

theorem moves_expressionStatement :
    Moves move more (Stmt.map move) (expressionStatement depth) (expressionStatement depth) :=
  moves_upToSemicolon same .expressionEnd fun _ => rfl

theorem moves_printStatement :
    Moves move more (Stmt.map move) (printStatement depth) (printStatement depth) :=
  moves_upToSemicolon same .printEnd fun _ => rfl

theorem moves_returnStatement (keyword : Occurrence) :
    Moves move more (Stmt.map move) (returnStatement keyword depth)
      (returnStatement (move keyword) depth) := by
  apply (moves_expressionUnless same Symbol.semicolon).bind
  intro value
  apply (moves_expect same Symbol.semicolon .returnEnd).bind
  intro _
  exact moves_pure (Stmt.returns keyword value)

theorem moves_varDeclaration :
    Moves move more (Stmt.map move) (varDeclaration depth) (varDeclaration depth) := by
  have finish (name : Occurrence) (initializer : Option Expr) :
      Moves move more (Stmt.map move)
        (do
          let _ ← expect Symbol.semicolon .variableEnd
          pure (.var name initializer))
        (do
          let _ ← expect Symbol.semicolon .variableEnd
          pure (.var (move name) (initializer.map (Expr.map move)))) :=
    (moves_expect same _ _).bind fun _ => moves_pure (Stmt.var name initializer)
  rw [varDeclaration]
  apply (moves_expect same .identifier .variableName).bind
  intro name
  apply (moves_accept same Symbol.equal).bind
  intro found
  cases found with
  | some =>
      exact (expressionsMove same more depth).expression.mapSome.bind (finish name)
  | none => exact finish name none

theorem moves_moreParameters (count : Nat) :
    Moves move more (List.map move) (moreParameters depth count)
      (moreParameters depth count) := by
  induction depth generalizing count with
  | zero => exact moves_tooDeep
  | succ depth induction =>
      rw [moreParameters]
      apply (moves_accept same Symbol.comma).bind
      intro found
      cases found with
      | none => exact moves_pure []
      | some =>
          have rest : Moves move more (List.map move)
              (do
                let parameter ← expect .identifier .parameterName
                let others ← moreParameters depth (count + 1)
                pure (parameter :: others))
              (do
                let parameter ← expect .identifier .parameterName
                let others ← moreParameters depth (count + 1)
                pure (parameter :: others)) := by
            apply (moves_expect same .identifier .parameterName).bind
            intro parameter
            apply (induction (count + 1)).bind
            intro others
            exact moves_pure (parameter :: others)
          by_cases tooMany : listLimit ≤ count
          · simp only [Option.map_some, if_pos tooMany]
            apply moves_next.bind
            intro token
            exact (moves_complain token .tooManyParameters).bind fun _ => rest
          · simp only [Option.map_some, if_neg tooMany]
            exact rest

theorem moves_parameters :
    Moves move more (List.map move) (parameters depth) (parameters depth) := by
  rw [parameters]
  apply (moves_follows same Symbol.rightParen).bind
  intro ended
  cases ended with
  | true => exact moves_pure []
  | false =>
      apply (moves_expect same .identifier .parameterName).bind
      intro first
      apply (moves_moreParameters same 1).bind
      intro others
      exact moves_pure (first :: others)

theorem moves_superclass :
    Moves move more (Option.map move) superclass superclass := by
  rw [superclass]
  apply (moves_accept same Symbol.less).bind
  intro found
  cases found with
  | some => exact (moves_expect same .identifier .superclassName).mapSome
  | none => exact moves_pure none

theorem moves_ended (extent : Extent) : Moves move more id (ended extent) (ended extent) := by
  cases extent with
  | wholeInput => exact moves_atEnd same
  | block =>
      apply (moves_follows same Symbol.rightBrace).bind
      intro atBrace
      apply (moves_atEnd same).bind
      intro atEnd
      exact moves_pure _

theorem moves_forInitializer :
    Moves move more (Option.map (Stmt.map move)) (forInitializer depth)
      (forInitializer depth) := by
  rw [forInitializer]
  apply moves_next.bind
  intro word
  rw [same.kind]
  split
  case h_1 => exact (moves_skip same).bind fun _ => moves_pure none
  case h_2 => exact (moves_skip same).bind fun _ => (moves_varDeclaration same).mapSome
  case h_3 => exact (moves_expressionStatement same).mapSome

end Parts

/-! ## Statements -/

structure StatementsMove (move : Occurrence → Occurrence) (more : List Occurrence)
    (depth : Nat) : Prop where
  declarations : ∀ extent, Moves move more (Stmt.mapAll move) (declarations depth extent)
    (declarations depth extent)
  declaration : Moves move more (Option.map (Stmt.map move)) (declaration depth)
    (declaration depth)
  wholeDeclaration : Moves move more (Stmt.map move) (wholeDeclaration depth)
    (wholeDeclaration depth)
  classDeclaration : Moves move more (Stmt.map move) (classDeclaration depth)
    (classDeclaration depth)
  methods : Moves move more (Routine.mapAll move) (methods depth) (methods depth)
  routine : ∀ kind,
    Moves move more (Routine.map move) (routine depth kind) (routine depth kind)
  block : Moves move more (Stmt.mapAll move) (block depth) (block depth)
  statement : Moves move more (Stmt.map move) (statement depth) (statement depth)
  forStatement : Moves move more (Stmt.map move) (forStatement depth) (forStatement depth)
  ifStatement : Moves move more (Stmt.map move) (ifStatement depth) (ifStatement depth)
  whileStatement :
    Moves move more (Stmt.map move) (whileStatement depth) (whileStatement depth)

section Statements

variable {depth : Nat} (same : SameKinds move) (inner : StatementsMove move more depth)

include same inner

theorem moves_declarations (extent : Extent) :
    Moves move more (Stmt.mapAll move) (declarations (depth + 1) extent)
      (declarations (depth + 1) extent) := by
  rw [declarations]
  apply (moves_ended same extent).bind
  intro ended
  cases ended with
  | true => exact moves_pure []
  | false =>
      apply inner.declaration.bind
      intro first
      apply (inner.declarations extent).bind
      intro others
      have moved : Moves move more (Stmt.mapAll move) (pure (first.toList ++ others))
          (pure (Stmt.mapAll move (first.toList ++ others))) := moves_pure _
      rwa [Stmt.mapAll_append, Stmt.mapAll_toList] at moved

theorem moves_declaration :
    Moves move more (Option.map (Stmt.map move)) (declaration (depth + 1))
      (declaration (depth + 1)) := by
  have left : Moves move more (Option.map (Stmt.map move)) (resume >>= fun _ => pure none)
      (resume >>= fun _ => pure none) := (moves_resume same).bind fun _ => moves_pure none
  intro stream
  have moves := inner.wholeDeclaration stream
  rw [declaration_eq, declaration_eq]
  cases outcome : wholeDeclaration depth stream with
  | ok tree after =>
      rw [outcome] at moves
      rw [moves]
      rfl
  | error stop after =>
      rw [outcome] at moves
      cases stop with
      | abandoned =>
          rw [moves]
          exact left after
      | pastEnd => exact ⟨moves.1, fun alone => by rw [moves.2 alone]⟩
      | tooDeep => rw [moves]

theorem moves_wholeDeclaration :
    Moves move more (Stmt.map move) (wholeDeclaration (depth + 1))
      (wholeDeclaration (depth + 1)) := by
  rw [wholeDeclaration]
  apply moves_next.bind
  intro word
  rw [same.kind]
  split
  case h_1 => exact (moves_skip same).bind fun _ => inner.classDeclaration
  case h_2 =>
      apply (moves_skip same).bind
      intro _
      exact (inner.routine .function).map fun _ => rfl
  case h_3 => exact (moves_skip same).bind fun _ => moves_varDeclaration same
  case h_4 => exact inner.statement

theorem moves_classDeclaration :
    Moves move more (Stmt.map move) (classDeclaration (depth + 1))
      (classDeclaration (depth + 1)) := by
  rw [classDeclaration]
  apply (moves_expect same .identifier .className).bind
  intro name
  apply (moves_superclass same).bind
  intro superclass
  apply (moves_expect same Symbol.leftBrace .classBody).bind
  intro _
  apply inner.methods.bind
  intro methods
  apply (moves_expect same Symbol.rightBrace .classEnd).bind
  intro _
  exact moves_pure (Stmt.classDecl name superclass methods)

theorem moves_methods :
    Moves move more (Routine.mapAll move) (methods (depth + 1)) (methods (depth + 1)) := by
  rw [methods]
  apply (moves_ended same .block).bind
  intro ended
  cases ended with
  | true => exact moves_pure []
  | false =>
      apply (inner.routine .method).bind
      intro first
      apply inner.methods.bind
      intro others
      exact moves_pure (first :: others)

theorem moves_routine (kind : RoutineKind) :
    Moves move more (Routine.map move) (routine (depth + 1) kind)
      (routine (depth + 1) kind) := by
  rw [routine]
  apply (moves_expect same .identifier (.routineName kind)).bind
  intro name
  apply (moves_expect same Symbol.leftParen (.parameters kind)).bind
  intro _
  apply (moves_parameters same).bind
  intro parameters
  apply (moves_expect same Symbol.rightParen .parametersEnd).bind
  intro _
  apply (moves_expect same Symbol.leftBrace (.routineBody kind)).bind
  intro _
  apply inner.block.bind
  intro body
  exact moves_pure (Routine.mk name parameters body)

theorem moves_block :
    Moves move more (Stmt.mapAll move) (block (depth + 1)) (block (depth + 1)) := by
  rw [block]
  apply (inner.declarations .block).bind
  intro statements
  exact (moves_expect same Symbol.rightBrace .blockEnd).bind fun _ => moves_pure statements

theorem moves_statement :
    Moves move more (Stmt.map move) (statement (depth + 1)) (statement (depth + 1)) := by
  rw [statement]
  apply moves_next.bind
  intro word
  rw [same.kind]
  split
  case h_1 => exact (moves_skip same).bind fun _ => inner.forStatement
  case h_2 => exact (moves_skip same).bind fun _ => inner.ifStatement
  case h_3 => exact (moves_skip same).bind fun _ => moves_printStatement same
  case h_4 => exact (moves_skip same).bind fun _ => moves_returnStatement same word
  case h_5 => exact (moves_skip same).bind fun _ => inner.whileStatement
  case h_6 => exact (moves_skip same).bind fun _ => inner.block.map fun _ => rfl
  case h_7 => exact moves_expressionStatement same

theorem moves_forStatement :
    Moves move more (Stmt.map move) (forStatement (depth + 1))
      (forStatement (depth + 1)) := by
  rw [forStatement]
  apply (moves_expect same Symbol.leftParen .forClauses).bind
  intro _
  apply (moves_forInitializer same).bind
  intro initializer
  apply (moves_expressionUnless same Symbol.semicolon).bind
  intro condition
  apply (moves_expect same Symbol.semicolon .forConditionEnd).bind
  intro _
  apply (moves_expressionUnless same Symbol.rightParen).bind
  intro increment
  apply (moves_expect same Symbol.rightParen .forClausesEnd).bind
  intro _
  apply inner.statement.bind
  intro body
  rw [← Stmt.map_forLoop]
  exact moves_pure _

theorem moves_ifStatement :
    Moves move more (Stmt.map move) (ifStatement (depth + 1)) (ifStatement (depth + 1)) := by
  rw [ifStatement]
  apply (moves_expect same Symbol.leftParen .ifCondition).bind
  intro _
  apply (expressionsMove same more depth).expression.bind
  intro condition
  apply (moves_expect same Symbol.rightParen .ifConditionEnd).bind
  intro _
  apply inner.statement.bind
  intro thenBranch
  have finish (elseBranch : Option Stmt) :
      Moves move more (Stmt.map move) (pure (.ifThen condition thenBranch elseBranch))
        (pure (.ifThen (condition.map move) (thenBranch.map move)
          (elseBranch.map (Stmt.map move)))) := by
    rw [← Stmt.map_ifThen]
    exact moves_pure _
  apply (moves_accept same Keyword.elseWord).bind
  intro found
  cases found with
  | some =>
      exact inner.statement.mapSome.bind finish
  | none => exact finish none

theorem moves_whileStatement :
    Moves move more (Stmt.map move) (whileStatement (depth + 1))
      (whileStatement (depth + 1)) := by
  rw [whileStatement]
  apply (moves_expect same Symbol.leftParen .whileCondition).bind
  intro _
  apply (expressionsMove same more depth).expression.bind
  intro condition
  apply (moves_expect same Symbol.rightParen .whileConditionEnd).bind
  intro _
  apply inner.statement.bind
  intro body
  exact moves_pure (Stmt.whileLoop condition body)

end Statements

theorem statementsMove (same : SameKinds move) (more : List Occurrence) (depth : Nat) :
    StatementsMove move more depth := by
  induction depth with
  | zero =>
      constructor <;> intros <;> exact moves_tooDeep
  | succ depth inner =>
      exact {
        declarations := moves_declarations same inner
        declaration := moves_declaration same inner
        wholeDeclaration := moves_wholeDeclaration same inner
        classDeclaration := moves_classDeclaration same inner
        methods := moves_methods same inner
        routine := moves_routine same inner
        block := moves_block same inner
        statement := moves_statement same inner
        forStatement := moves_forStatement same inner
        ifStatement := moves_ifStatement same inner
        whileStatement := moves_whileStatement same inner }

end Reader

/-- A stream of other words of the same kinds is read in the same way. -/
theorem Parsed.ofTokens_map {move : Occurrence → Occurrence} (same : SameKinds move)
    (tokens : List Occurrence) :
    Parsed.ofTokens (tokens.map move) = (Parsed.ofTokens tokens).map fun parsed =>
      ⟨Stmt.mapAll move parsed.statements,
        parsed.faults.map (ReadingFault.map move)⟩ := by
  have shape : Stream.map move [] ⟨tokens, #[]⟩ = ⟨tokens.map move, #[]⟩ := by
    simp [Stream.map]
  have descent : Stream.descent ⟨tokens.map move, #[]⟩ = Stream.descent ⟨tokens, #[]⟩ := by
    rw [Stream.descent, Stream.descent, List.length_map]
  have moves := (Reader.statementsMove same [] (Stream.descent ⟨tokens, #[]⟩)).declarations
    .wholeInput ⟨tokens, #[]⟩
  rw [shape] at moves
  rw [ofTokens, ofTokens, Stream.parse, Stream.parse, descent]
  cases outcome : Reader.declarations (Stream.descent ⟨tokens, #[]⟩) .wholeInput
      ⟨tokens, #[]⟩ with
  | ok statements after =>
      rw [outcome] at moves
      rw [moves]
      simp only [Stream.map, Array.toList_map, Except.map]
  | error stop after =>
      rw [outcome] at moves
      cases stop with
      | pastEnd =>
          rw [moves.2 rfl]
          rfl
      | abandoned | tooDeep =>
          rw [moves]
          rfl

end LoxLang
