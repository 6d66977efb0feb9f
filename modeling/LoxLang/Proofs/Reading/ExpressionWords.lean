import LoxLang.Proofs.Binding.Order
import LoxLang.Proofs.Reading.ExpressionSoundness

/-! # The words of expressions

The references in the tree that an expression reader delivers are among the tokens that it
has taken, whether it noted faults or not, and each is of the kind that such a reference
has. A reader may leave words out of the tree, but it never uses one twice.
-/

namespace LoxLang.Reader

def DrawsExpression (taken : List Occurrence) (_ : List ReadingFault) (tree : Expr)
    (_ : Stream) : Prop :=
  Reference.Drawn tree.references taken

def DrawsFurther (left : Expr) (taken : List Occurrence) (_ : List ReadingFault)
    (tree : Expr) (_ : Stream) : Prop :=
  ∀ before, Reference.Drawn left.references before →
    Reference.Drawn tree.references (before ++ taken)

def DrawsArguments (taken : List Occurrence) (_ : List ReadingFault) (trees : List Expr)
    (_ : Stream) : Prop :=
  Reference.Drawn (Expr.referencesOfAll trees) taken

structure ExpressionsDrawn (depth : Nat) : Prop where
  expression : ∀ stream, Room stream 15 depth →
    (expression depth).Meets stream DrawsExpression
  joined : ∀ level stream, Room stream (2 * levelHeight level + 4) depth →
    (joined depth level).Meets stream DrawsExpression
  operand : ∀ level stream, Room stream (2 * levelHeight level + 3) depth →
    (operand depth level).Meets stream DrawsExpression
  joinedTo : ∀ level left stream, Room stream 1 depth →
    (joinedTo depth level left).Meets stream (DrawsFurther left)
  unary : ∀ stream, Room stream 2 depth → (unary depth).Meets stream DrawsExpression
  suffixed : ∀ callee stream, Room stream 1 depth →
    (suffixed depth callee).Meets stream (DrawsFurther callee)
  arguments : ∀ stream, Room stream 16 depth →
    (arguments depth).Meets stream DrawsArguments
  moreArguments : ∀ count stream, Room stream 1 depth →
    (moreArguments depth count).Meets stream DrawsArguments
  primary : ∀ stream, Room stream 1 depth →
    (primary depth).Meets stream DrawsExpression

variable {depth : Nat} {stream : Stream}

theorem drawn_of_assigning? {target value assignment : Expr}
    {tokens tokens' : List Occurrence}
    (targetDrawn : Reference.Drawn target.references tokens)
    (valueDrawn : Reference.Drawn value.references tokens')
    (assigning : target.assigning? value = some assignment) :
    Reference.Drawn assignment.references (tokens ++ tokens') := by
  cases target with
  | «variable» name =>
      obtain rfl : Expr.assign name value = assignment := by
        simpa [Expr.assigning?] using assigning
      have both := targetDrawn.append valueDrawn
      exact ⟨both.contained, fun reference member => by
        rcases List.mem_cons.mp member with rfl | member
        · exact both.kinds ⟨.variable, name⟩ List.mem_cons_self
        · exact both.kinds reference (List.mem_cons_of_mem _ member)⟩
  | get object name =>
      obtain rfl : Expr.set object name value = assignment := by
        simpa [Expr.assigning?] using assigning
      exact targetDrawn.append valueDrawn
  | _ => simp [Expr.assigning?] at assigning

theorem expression_drawn (readers : ExpressionsDrawn depth)
    (room : Room stream 15 (depth + 1)) :
    (expression (depth + 1)).Meets stream DrawsExpression := by
  rw [expression]
  apply (readers.joined .disjunction stream (room.deeper (by decide))).bind
  intro taken added target after reads targetDrawn
  refine meets_of_accept ?_ ?_
  · intro word after' wordReads _
    apply (readers.expression after' (room.after (reads.trans wordReads) (by simp))).bind
    intro taken' added' value after'' _ valueDrawn
    cases assigning : target.assigning? value with
    | some assignment =>
        refine meets_pure ?_
        simpa [DrawsExpression] using
          drawn_of_assigning? targetDrawn (valueDrawn.skip word) assigning
    | none =>
        refine meets_of_complain fun after _ => meets_pure ?_
        simpa [DrawsExpression] using targetDrawn.append (.nil (word :: taken'))
  · intro _
    exact meets_pure (by simpa using targetDrawn)

theorem joined_drawn {level : Level} (readers : ExpressionsDrawn depth)
    (room : Room stream (2 * levelHeight level + 4) (depth + 1)) :
    (joined (depth + 1) level).Meets stream DrawsExpression := by
  rw [joined]
  apply (readers.operand level stream (room.deeper (by omega))).bind
  intro taken added left after reads leftDrawn
  apply (readers.joinedTo level left after (room.after reads (by omega))).weaken
  exact fun _ _ _ _ _ further => further taken leftDrawn

theorem operand_drawn {level : Level} (readers : ExpressionsDrawn depth)
    (room : Room stream (2 * levelHeight level + 3) (depth + 1)) :
    (operand (depth + 1) level).Meets stream DrawsExpression := by
  rw [operand]
  cases level with
  | factor => exact readers.unary stream (room.deeper (by decide))
  | disjunction | conjunction | equality | comparison | term =>
      exact readers.joined _ stream (room.deeper (by decide))

theorem references_join (connective : Connective) (left right : Expr) (word : Occurrence) :
    (connective.join left word right).references = left.references ++ right.references := by
  cases connective <;> rfl

theorem joinedTo_drawn {level : Level} {left : Expr} (readers : ExpressionsDrawn depth)
    (room : Room stream 1 (depth + 1)) :
    (joinedTo (depth + 1) level left).Meets stream (DrawsFurther left) := by
  rw [joinedTo]
  refine meets_of_acceptAs (by cases level <;> rfl) ?_ ?_
  · intro word connective after reads _
    refine (readers.operand level after
      (room.after reads (by cases level <;> simp [levelHeight]))).bind ?_
    intro taken added right after' reads' rightDrawn
    apply (readers.joinedTo level _ after'
      (room.after (reads.trans reads') (by simp))).weaken
    intro taken' added' tree _ _ further before leftDrawn
    have both := leftDrawn.append (rightDrawn.skip word)
    rw [← references_join connective left right word] at both
    simpa using further _ both
  · intro _
    exact meets_pure fun before leftDrawn => by simpa using leftDrawn

theorem unary_drawn (readers : ExpressionsDrawn depth)
    (room : Room stream 2 (depth + 1)) :
    (unary (depth + 1)).Meets stream DrawsExpression := by
  rw [unary]
  refine meets_of_acceptAs rfl ?_ ?_
  · intro word operator after reads _
    apply (readers.unary after (room.after reads (by simp))).bind
    intro taken added right after' _ rightDrawn
    exact meets_pure (by
      simpa [DrawsExpression, Expr.references] using rightDrawn.skip word)
  · intro _
    apply (readers.primary stream (room.deeper (by omega))).bind
    intro taken added callee after reads calleeDrawn
    apply (readers.suffixed callee after (room.after reads (by omega))).weaken
    exact fun _ _ _ _ _ further => further taken calleeDrawn

theorem suffixed_drawn {callee : Expr} (readers : ExpressionsDrawn depth)
    (room : Room stream 1 (depth + 1)) :
    (suffixed (depth + 1) callee).Meets stream (DrawsFurther callee) := by
  rw [suffixed]
  refine meets_of_accept ?_ ?_
  · intro leftParen after reads _
    apply (readers.arguments after (room.after reads (by simp))).bind
    intro taken added list after' reads' argumentsDrawn
    refine meets_of_expect ?_
    intro rightParen after'' reads'' _
    refine (readers.suffixed _ after''
      (room.after ((reads.trans reads').trans reads'') (by simp))).weaken ?_
    intro taken' added' tree _ _ further before calleeDrawn
    have both := calleeDrawn.append ((argumentsDrawn.close rightParen).skip leftParen)
    simpa using further _ both
  · intro _
    refine meets_of_accept ?_ ?_
    · intro dot after reads _
      refine meets_of_expect ?_
      intro name after' reads' _
      apply (readers.suffixed _ after' (room.after (reads.trans reads') (by simp))).weaken
      intro taken' added' tree _ _ further before objectDrawn
      simpa using further _ ((objectDrawn.close dot).close name)
    · intro _
      exact meets_pure fun before calleeDrawn => by simpa using calleeDrawn

theorem arguments_drawn (readers : ExpressionsDrawn depth)
    (room : Room stream 16 (depth + 1)) :
    (arguments (depth + 1)).Meets stream DrawsArguments := by
  rw [arguments]
  refine meets_of_follows fun word _ => ?_
  split
  · exact meets_pure (.nil [])
  · apply (readers.expression stream (room.deeper (by omega))).bind
    intro taken added first after reads firstDrawn
    apply (readers.moreArguments 1 after (room.after reads (by omega))).bind
    intro taken' added' others after' _ othersDrawn
    exact meets_pure (by
      simpa [DrawsArguments, Expr.referencesOfAll] using firstDrawn.append othersDrawn)

private theorem furtherArgument_drawn {comma : Occurrence} {count : Nat}
    (readers : ExpressionsDrawn depth) (room : Room stream 15 depth) :
    (do
      let argument ← expression depth
      let others ← moreArguments depth (count + 1)
      pure (argument :: others) : Reader (List Expr)).Meets stream
        fun taken => DrawsArguments (comma :: taken) := by
  apply (readers.expression stream room).bind
  intro taken added argument after reads argumentDrawn
  have room : Room stream 15 (depth + 1) := room.mono (by omega)
  apply (readers.moreArguments (count + 1) after (room.after reads (by omega))).bind
  intro taken' added' others after' _ othersDrawn
  exact meets_pure (by
    simpa [DrawsArguments, Expr.referencesOfAll] using
      (argumentDrawn.append othersDrawn).skip comma)

theorem moreArguments_drawn {count : Nat} (readers : ExpressionsDrawn depth)
    (room : Room stream 1 (depth + 1)) :
    (moreArguments (depth + 1) count).Meets stream DrawsArguments := by
  rw [moreArguments]
  refine meets_of_accept ?_ ?_
  · intro comma after reads _
    dsimp only
    split
    case isTrue =>
      refine meets_of_next fun word _ => meets_of_complain fun after' reads' => ?_
      exact furtherArgument_drawn readers (room.after (reads.trans reads') (by simp))
    case isFalse => exact furtherArgument_drawn readers (room.after reads (by simp))
  · intro _
    exact meets_pure (.nil [])

private theorem word_drawn {word : Occurrence} {tree : Expr}
    (front : word ∈ stream.rest.head?) (inside : word.kind ≠ .endOfInput)
    (drawn : Reference.Drawn tree.references [word]) :
    (do skip; pure tree : Reader Expr).Meets stream DrawsExpression :=
  meets_of_skip front inside fun _ _ => meets_pure drawn

theorem primary_drawn (readers : ExpressionsDrawn depth)
    (room : Room stream 1 (depth + 1)) :
    (primary (depth + 1)).Meets stream DrawsExpression := by
  rw [primary]
  refine meets_of_next fun word front => ?_
  split
  case h_1 kind | h_2 kind | h_3 kind | h_4 kind | h_5 kind =>
    exact word_drawn front (by simp [kind]) (.nil _)
  case h_7 kind => exact word_drawn front (by simp [kind]) (.single kind)
  case h_8 kind => exact word_drawn front (by simp [kind]) (.single kind)
  case h_6 keywordKind =>
    refine meets_of_skip front (by simp [keywordKind]) fun after _ => ?_
    refine meets_of_expect fun dot after' _ _ => ?_
    refine meets_of_expect fun method after'' _ _ => ?_
    exact meets_pure ((Reference.Drawn.nil [dot, method]).cons keywordKind)
  case h_9 leftParenKind =>
    refine meets_of_skip front (by simp [leftParenKind]) fun after reads => ?_
    refine (readers.expression after (room.after reads (by simp))).bind ?_
    intro taken added inner after' _ innerDrawn
    refine meets_of_expect fun rightParen after'' _ _ => ?_
    exact meets_pure ((innerDrawn.close rightParen).skip word)
  case h_10 => exact meets_missing

theorem expressionsDrawn : ∀ depth, ExpressionsDrawn depth
  | 0 => by
      constructor <;> intros <;> rename_i room <;> exact absurd room.1 (by omega)
  | depth + 1 =>
      have readers := expressionsDrawn depth
      { expression := fun _ room => expression_drawn readers room
        joined := fun _ _ room => joined_drawn readers room
        operand := fun _ _ room => operand_drawn readers room
        joinedTo := fun _ _ _ room => joinedTo_drawn readers room
        unary := fun _ room => unary_drawn readers room
        suffixed := fun _ _ room => suffixed_drawn readers room
        arguments := fun _ room => arguments_drawn readers room
        moreArguments := fun _ _ room => moreArguments_drawn readers room
        primary := fun _ room => primary_drawn readers room }

end LoxLang.Reader
