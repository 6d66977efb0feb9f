import LoxLang.Proofs.Reading.ExpressionSoundness

/-! # Derivable expressions are read

A phrase of the grammar is read to its end and no further, provided that the token behind
it does not continue it. How far a reader goes on is settled by one number for each kind
of token: how tightly it binds to what stands before it.
-/

namespace LoxLang.Reader

open Grammar

variable {α β : Type}

/-! ## What continues a phrase -/

/-- How tightly a token binds to the phrase before it; zero if it does not continue a
phrase. -/
def tightness : Kind → Nat
  | .symbol .leftParen | .symbol .dot => 8
  | .symbol .slash | .symbol .star => 7
  | .symbol .minus | .symbol .plus => 6
  | .symbol .greater | .symbol .greaterEqual | .symbol .less | .symbol .lessEqual => 5
  | .symbol .bangEqual | .symbol .equalEqual => 4
  | .keyword .andWord => 3
  | .keyword .orWord => 2
  | .symbol .equal => 1
  | _ => 0

def levelTightness (level : Level) : Nat := 7 - levelHeight level

def Stops (bound : Nat) (rest : List Occurrence) : Prop :=
  ∃ token ∈ rest.head?, tightness token.kind < bound

theorem Stops.mono {bound larger : Nat} {rest : List Occurrence}
    (stops : Stops bound rest) (le : bound ≤ larger) : Stops larger rest := by
  rcases stops with ⟨token, front, less⟩
  exact ⟨token, front, Nat.lt_of_lt_of_le less le⟩

theorem Stops.cons {bound : Nat} {token : Occurrence} {rest : List Occurrence}
    (less : tightness token.kind < bound) : Stops bound (token :: rest) := by
  simpa [Stops] using less

theorem tightness_of_connective? {level : Level} {kind : Kind} {connective : Connective}
    (found : level.connective? kind = some connective) :
    tightness kind = levelTightness level := by
  cases level <;> simp only [Level.connective?] at found <;> split at found <;>
    simp_all <;> rfl

theorem connective?_of_mem_operators {level : Level} {kind : Kind}
    {build : Expr → Occurrence → Expr → Expr} (member : (kind, build) ∈ operators level) :
    ∃ connective, level.connective? kind = some connective ∧
      ∀ left word right, connective.join left word right = build left word right := by
  cases level <;> simp only [operators, List.mem_cons, Prod.mk.injEq, List.not_mem_nil,
    or_false] at member
  case disjunction | conjunction =>
    rcases member with ⟨rfl, rfl⟩
    exact ⟨_, rfl, fun _ _ _ => rfl⟩
  case equality | term | factor =>
    obtain ⟨rfl, rfl⟩ | ⟨rfl, rfl⟩ := member <;> exact ⟨_, rfl, fun _ _ _ => rfl⟩
  case comparison =>
    obtain ⟨rfl, rfl⟩ | ⟨rfl, rfl⟩ | ⟨rfl, rfl⟩ | ⟨rfl, rfl⟩ := member <;>
      exact ⟨_, rfl, fun _ _ _ => rfl⟩

theorem ofKind?_of_mem_unaryOperators {kind : Kind} {operator : UnaryOperator}
    (member : (kind, operator) ∈ unaryOperators) :
    UnaryOperator.ofKind? kind = some operator := by
  simp only [unaryOperators, List.mem_cons, Prod.mk.injEq, List.not_mem_nil,
    or_false] at member
  obtain ⟨rfl, rfl⟩ | ⟨rfl, rfl⟩ := member <;> rfl

/-! ## What it is to be read -/

/-- Before `rest` the reader takes just `tokens`, if `follow` holds of `rest` and there is
a depth of 32 for each token and `extra` more. -/
def Takes (reader : Nat → Reader α) (extra : Nat) (follow : List Occurrence → Prop)
    (tokens : List Occurrence) (result : α) : Prop :=
  ∀ rest faults depth, follow rest →
    32 * (tokens.length + rest.length) + extra ≤ depth →
      reader depth ⟨tokens ++ rest, faults⟩ = .ok result ⟨rest, faults⟩

/-- Before `rest` the reader takes `tokens` and then goes on as `resumed` does from the
result. -/
def Reaches (reader : Nat → Reader α) (resumed : Nat → α → Reader α) (extra : Nat)
    (follow : List Occurrence → Prop) (tokens : List Occurrence) (result : α) : Prop :=
  ∀ rest faults depth, follow rest →
    32 * (tokens.length + rest.length) + extra ≤ depth →
      ∃ further, 32 * rest.length + 1 ≤ further ∧
        reader depth ⟨tokens ++ rest, faults⟩ =
          resumed further result ⟨rest, faults⟩

def StartsOperand (tokens : List Occurrence) : Prop :=
  ∃ first rest, tokens = first :: rest ∧ UnaryOperator.ofKind? first.kind = none

def Closes (rest : List Occurrence) : Prop :=
  ∃ paren later, rest = paren :: later ∧ paren.kind = Symbol.rightParen

/-- The readers of a phrase deliver the tree for the tokens. For the phrases that grow at
their right end they come to the point where they look for more. -/
def IsRead : (phrase : ExpressionPhrase) → List Occurrence → phrase.Tree → Prop
  | .expression => Takes expression 15 (Stops 1)
  | .joined level =>
      Reaches (joined · level) (joinedTo · level) (2 * levelHeight level + 4)
        (Stops (levelTightness level + 1))
  | .operand level =>
      Takes (operand · level) (2 * levelHeight level + 3)
        (Stops (levelTightness level + 1))
  | .unary => Takes unary 2 (Stops 8)
  | .call => fun tokens tree =>
      StartsOperand tokens ∧
        Reaches (fun depth => primary depth >>= suffixed depth) suffixed 1 (fun _ => True)
          tokens tree
  | .primary => fun tokens tree =>
      StartsOperand tokens ∧ Takes primary 1 (fun _ => True) tokens tree
  | .arguments => fun tokens list =>
      list.length ≤ 255 → Takes arguments 16 Closes tokens list
  | .furtherArguments => fun tokens list =>
      ∀ count, count + list.length ≤ 255 →
        Takes (moreArguments · count) 1 Closes tokens list

/-! ## Operators -/

theorem joinedTo_stops {level : Level} {tree : Expr} {rest : List Occurrence}
    {faults : Array ReadingFault} {depth : Nat}
    (stops : Stops (levelTightness level) rest) (room : 1 ≤ depth) :
    joinedTo depth level tree ⟨rest, faults⟩ =
      .ok tree ⟨rest, faults⟩ := by
  rcases Nat.exists_eq_add_of_le' (by omega : 1 ≤ depth) with ⟨depth, rfl⟩
  rw [joinedTo]
  rcases stops with ⟨token, front, less⟩
  refine bind_of_ok (acceptAs_refused ⟨token, front, ?_⟩) rfl
  cases found : level.connective? token.kind with
  | none => rfl
  | some connective =>
      have equal := tightness_of_connective? found
      omega

theorem takes_of_joined {level : Level} {tokens : List Occurrence} {tree : Expr}
    (read : IsRead (.joined level) tokens tree) :
    Takes (joined · level) (2 * levelHeight level + 4) (Stops (levelTightness level))
      tokens tree := by
  intro rest faults depth stops room
  rcases read rest faults depth (stops.mono (by omega)) room with
      ⟨further, enough, outcome⟩
  dsimp only at outcome ⊢
  rw [outcome, joinedTo_stops stops (by omega)]

theorem read_single {level : Level} {tokens : List Occurrence} {tree : Expr}
    (nonempty : tokens ≠ []) (read : IsRead (.operand level) tokens tree) :
    IsRead (.joined level) tokens tree := by
  have length := List.length_pos_iff.mpr nonempty
  intro rest faults depth stops room
  rcases Nat.exists_eq_add_of_le' (by omega : 1 ≤ depth) with ⟨depth, rfl⟩
  refine ⟨depth, by omega, ?_⟩
  dsimp only
  rw [joined]
  exact bind_of_ok (read rest faults depth stops (by omega)) rfl

theorem read_further {level : Level} {build : Expr → Occurrence → Expr → Expr}
    {word : Occurrence} {before tokens : List Occurrence} {left right : Expr}
    (leftRead : IsRead (.joined level) before left)
    (wordKind : (word.kind, build) ∈ operators level)
    (rightRead : IsRead (.operand level) tokens right) :
    IsRead (.joined level) (before ++ word :: tokens) (build left word right) := by
  rcases connective?_of_mem_operators wordKind with ⟨connective, found, join⟩
  intro rest faults depth stops room
  simp only [List.length_append, List.length_cons] at room
  have less : tightness word.kind < levelTightness level + 1 := by
    rw [tightness_of_connective? found]
    omega
  have roomLeft : 32 * (before.length + (word :: (tokens ++ rest)).length) +
      (2 * levelHeight level + 4) ≤ depth := by
    simp only [List.length_append, List.length_cons]
    omega
  rcases leftRead (word :: (tokens ++ rest)) faults depth (.cons less)
      roomLeft with
    ⟨further, enough, outcome⟩
  simp only [List.length_append, List.length_cons] at enough
  rcases Nat.exists_eq_add_of_le' (by omega : 1 ≤ further) with ⟨further, rfl⟩
  refine ⟨further, by omega, ?_⟩
  have height : levelHeight level ≤ 5 := by cases level <;> decide
  simp only [List.append_assoc, List.cons_append] at outcome ⊢
  rw [outcome, joinedTo]
  apply bind_of_ok (acceptAs_taken found (by cases level <;> rfl))
  apply bind_of_ok (rightRead rest faults further stops (by omega))
  rw [join]

theorem read_operand {level tighter : Level} {tokens : List Occurrence} {tree : Expr}
    (next : level.tighter? = some tighter) (read : IsRead (.joined tighter) tokens tree) :
    IsRead (.operand level) tokens tree := by
  have height : levelHeight level = levelHeight tighter + 1 ∧
      levelTightness tighter = levelTightness level + 1 := by
    cases level <;> simp only [Level.tighter?, Option.some.injEq,
      reduceCtorEq] at next <;> subst next <;> exact ⟨rfl, rfl⟩
  intro rest faults depth stops room
  rcases Nat.exists_eq_add_of_le' (by omega : 1 ≤ depth) with ⟨depth, rfl⟩
  dsimp only
  rw [operand, next]
  exact takes_of_joined read rest faults depth (height.2 ▸ stops) (by omega)

theorem read_unary {tokens : List Occurrence} {tree : Expr}
    (read : IsRead .unary tokens tree) : IsRead (.operand .factor) tokens tree := by
  intro rest faults depth stops room
  rcases Nat.exists_eq_add_of_le' (by omega : 1 ≤ depth) with ⟨depth, rfl⟩
  exact read rest faults depth stops (by simp only [levelHeight] at room; omega)

theorem read_unaryOperator {operator : UnaryOperator} {word : Occurrence}
    {tokens : List Occurrence} {right : Expr}
    (wordKind : (word.kind, operator) ∈ unaryOperators)
    (read : IsRead .unary tokens right) :
    IsRead .unary (word :: tokens) (.unary operator word right) := by
  intro rest faults depth stops room
  simp only [List.length_cons] at room
  rcases Nat.exists_eq_add_of_le' (by omega : 1 ≤ depth) with ⟨depth, rfl⟩
  rw [unary]
  refine bind_of_ok (acceptAs_taken (ofKind?_of_mem_unaryOperators wordKind) rfl) ?_
  exact bind_of_ok (read rest faults depth stops (by omega)) rfl

/-! ## Calls -/

theorem suffixed_stops {tree : Expr} {rest : List Occurrence}
    {faults : Array ReadingFault} {depth : Nat} (stops : Stops 8 rest)
    (room : 1 ≤ depth) :
    suffixed depth tree ⟨rest, faults⟩ = .ok tree ⟨rest, faults⟩ := by
  rcases Nat.exists_eq_add_of_le' (by omega : 1 ≤ depth) with ⟨depth, rfl⟩
  have refused : ∀ kind, tightness kind = 8 →
      ∃ token ∈ rest.head?, token.kind ≠ kind := by
    intro kind tight
    rcases stops with ⟨token, front, less⟩
    refine ⟨token, front, fun same => ?_⟩
    rw [same, tight] at less
    exact absurd less (by decide)
  rw [suffixed]
  apply bind_of_ok (accept_refused (refused _ rfl))
  exact bind_of_ok (accept_refused (refused _ rfl)) rfl

theorem read_call {tokens : List Occurrence} {tree : Expr}
    (read : IsRead .call tokens tree) : IsRead .unary tokens tree := by
  rcases read with ⟨⟨first, others, rfl, operand⟩, read⟩
  intro rest faults depth stops room
  rcases Nat.exists_eq_add_of_le' (by omega : 1 ≤ depth) with ⟨depth, rfl⟩
  rcases read rest faults depth trivial (by omega) with ⟨further, enough, outcome⟩
  rw [unary]
  apply bind_of_ok (acceptAs_refused (by simpa using operand))
  exact outcome.trans (suffixed_stops stops (by omega))

theorem read_primary {tokens : List Occurrence} {tree : Expr}
    (read : IsRead .primary tokens tree) : IsRead .call tokens tree := by
  rcases read with ⟨starts, read⟩
  refine ⟨starts, ?_⟩
  rcases starts with ⟨first, others, rfl, -⟩
  intro rest faults depth _ room
  refine ⟨depth, by simp only [List.length_cons] at room; omega, ?_⟩
  exact bind_of_ok (read rest faults depth trivial room) rfl

theorem read_callArguments {leftParen rightParen : Occurrence}
    {before tokens : List Occurrence} {callee : Expr} {list : List Expr}
    (calleeRead : IsRead .call before callee)
    (leftParenKind : leftParen.kind = Symbol.leftParen)
    (argumentsRead : IsRead .arguments tokens list) (bound : list.length ≤ 255)
    (rightParenKind : rightParen.kind = Symbol.rightParen) :
    IsRead .call (before ++ leftParen :: (tokens ++ [rightParen]))
      (.call callee rightParen list) := by
  rcases calleeRead with ⟨⟨first, others, rfl, operand⟩, calleeRead⟩
  refine ⟨⟨first, _, rfl, operand⟩, ?_⟩
  intro rest faults depth _ room
  simp only [List.length_append, List.length_cons, List.length_nil] at room
  rcases calleeRead (leftParen :: (tokens ++ (rightParen :: rest))) faults depth
      trivial (by
      simp only [List.length_append, List.length_cons]; omega) with
        ⟨further, enough, outcome⟩
  simp only [List.length_append, List.length_cons] at enough
  rcases Nat.exists_eq_add_of_le' (by omega : 1 ≤ further) with ⟨further, rfl⟩
  refine ⟨further, by omega, ?_⟩
  simp only [List.append_assoc, List.cons_append, List.nil_append] at outcome ⊢
  rw [outcome, suffixed]
  apply bind_of_ok (accept_taken leftParenKind)
  refine bind_of_ok (argumentsRead bound _ faults further
    ⟨_, _, rfl, rightParenKind⟩ (by simp only [List.length_cons]; omega)) ?_
  exact bind_of_ok (expect_taken rightParenKind) rfl

theorem read_callProperty {dot name : Occurrence} {before : List Occurrence}
    {object : Expr} (objectRead : IsRead .call before object)
    (dotKind : dot.kind = Symbol.dot) (nameKind : name.kind = .identifier) :
    IsRead .call (before ++ [dot, name]) (.get object name) := by
  rcases objectRead with ⟨⟨first, others, rfl, operand⟩, objectRead⟩
  refine ⟨⟨first, _, rfl, operand⟩, ?_⟩
  intro rest faults depth _ room
  simp only [List.length_append, List.length_cons, List.length_nil] at room
  have roomLeft : 32 * (others.length + 1 + (dot :: name :: rest).length) + 1 ≤
      depth := by
    simp only [List.length_cons]
    omega
  rcases objectRead (dot :: name :: rest) faults depth trivial roomLeft with
    ⟨further, enough, outcome⟩
  simp only [List.length_cons] at enough
  rcases Nat.exists_eq_add_of_le' (by omega : 1 ≤ further) with ⟨further, rfl⟩
  refine ⟨further, by omega, ?_⟩
  simp only [List.append_assoc, List.cons_append, List.nil_append] at outcome ⊢
  rw [outcome, suffixed]
  apply bind_of_ok (accept_refused (by simp [dotKind]))
  apply bind_of_ok (accept_taken dotKind)
  exact bind_of_ok (expect_taken nameKind) rfl

/-! ## Arguments -/

theorem Closes.stops {rest : List Occurrence} {bound : Nat} (closes : Closes rest)
    (positive : 0 < bound) : Stops bound rest := by
  rcases closes with ⟨paren, later, rfl, kind⟩
  exact .cons (by rw [kind]; exact positive)

theorem read_noArguments : IsRead .arguments [] [] := by
  intro _ rest faults depth closes room
  rcases closes with ⟨paren, later, rfl, kind⟩
  rcases Nat.exists_eq_add_of_le' (by omega : 1 ≤ depth) with ⟨depth, rfl⟩
  rw [arguments]
  apply bind_of_ok follows_front
  rw [decide_eq_true kind]
  rfl

theorem read_someArguments {tokens others : List Occurrence} {argument : Expr}
    {list : List Expr}
    (starts : ∃ first rest, tokens = first :: rest ∧ startsExpression first.kind)
    (argumentRead : IsRead .expression tokens argument)
    (stops : ∀ rest, Closes rest → Stops 1 (others ++ rest))
    (othersRead : IsRead .furtherArguments others list) :
    IsRead .arguments (tokens ++ others) (argument :: list) := by
  rcases starts with ⟨first, remaining, rfl, starts⟩
  intro bound rest faults depth closes room
  simp only [List.length_append, List.length_cons] at room bound
  rcases Nat.exists_eq_add_of_le' (by omega : 1 ≤ depth) with ⟨depth, rfl⟩
  have different : first.kind ≠ Symbol.rightParen := fun same => by
    rw [same] at starts
    exact absurd starts (by decide)
  simp only [List.append_assoc, List.cons_append]
  rw [arguments]
  apply bind_of_ok follows_front
  rw [decide_eq_false different]
  refine bind_of_ok (argumentRead (others ++ rest) faults depth (stops rest closes)
    (by simp only [List.length_append, List.length_cons]; omega)) ?_
  exact bind_of_ok (othersRead 1 (by omega) rest faults depth closes (by omega))
    rfl

theorem read_noFurtherArguments : IsRead .furtherArguments [] [] := by
  intro count bound rest faults depth closes room
  rcases closes with ⟨paren, later, rfl, kind⟩
  rcases Nat.exists_eq_add_of_le' (by omega : 1 ≤ depth) with ⟨depth, rfl⟩
  dsimp only
  rw [moreArguments]
  exact bind_of_ok (accept_refused (by simp [kind])) rfl

theorem read_furtherArgument {comma : Occurrence} {tokens others : List Occurrence}
    {argument : Expr} {list : List Expr} (commaKind : comma.kind = Symbol.comma)
    (argumentRead : IsRead .expression tokens argument)
    (stops : ∀ rest, Closes rest → Stops 1 (others ++ rest))
    (othersRead : IsRead .furtherArguments others list) :
    IsRead .furtherArguments (comma :: (tokens ++ others)) (argument :: list) := by
  intro count bound rest faults depth closes room
  simp only [List.length_append, List.length_cons] at room bound
  rcases Nat.exists_eq_add_of_le' (by omega : 1 ≤ depth) with ⟨depth, rfl⟩
  have few : ¬ listLimit ≤ count := by simp only [listLimit]; omega
  simp only [List.append_assoc, List.cons_append]
  rw [moreArguments]
  apply bind_of_ok (accept_taken commaKind)
  simp only [few, if_false]
  refine bind_of_ok (argumentRead (others ++ rest) faults depth (stops rest closes)
    (by simp only [List.length_append]; omega)) ?_
  exact bind_of_ok (othersRead (count + 1) (by omega) rest faults depth closes
    (by omega)) rfl

/-! ## Primary expressions -/

section Primary

variable {word : Occurrence}

private theorem startsOperand_of_kind {kind : Kind} {others : List Occurrence}
    (same : word.kind = kind) (operand : UnaryOperator.ofKind? kind = none) :
    StartsOperand (word :: others) := ⟨word, others, rfl, by rw [same, operand]⟩

private theorem read_word {kind : Kind} {tree : Expr} (same : word.kind = kind)
    (operand : UnaryOperator.ofKind? kind = none) (inside : kind ≠ .endOfInput)
    (branch : ∀ depth stream, word.kind = kind → next stream = .ok word stream →
      primary (depth + 1) stream = (skip >>= fun _ => pure tree) stream) :
    IsRead .primary [word] tree := by
  refine ⟨startsOperand_of_kind same operand, ?_⟩
  intro rest faults depth _ room
  rcases Nat.exists_eq_add_of_le' (by omega : 1 ≤ depth) with ⟨depth, rfl⟩
  exact (branch depth _ same rfl).trans
    (bind_of_ok (skip_front (same ▸ inside)) rfl)

theorem read_falseLiteral (kind : word.kind = Keyword.falseWord) :
    IsRead .primary [word] (.literal (.bool false)) :=
  read_word kind rfl (by decide) fun _ _ kind front => by
    rw [primary]
    exact bind_of_ok front (by rw [kind])

theorem read_trueLiteral (kind : word.kind = Keyword.trueWord) :
    IsRead .primary [word] (.literal (.bool true)) :=
  read_word kind rfl (by decide) fun _ _ kind front => by
    rw [primary]
    exact bind_of_ok front (by rw [kind])

theorem read_nilLiteral (kind : word.kind = Keyword.nilWord) :
    IsRead .primary [word] (.literal .nil) :=
  read_word kind rfl (by decide) fun _ _ kind front => by
    rw [primary]
    exact bind_of_ok front (by rw [kind])

theorem read_number (kind : word.kind = .number) :
    IsRead .primary [word] (.literal word.literal) :=
  read_word kind rfl (by decide) fun _ _ kind front => by
    rw [primary]
    exact bind_of_ok front (by rw [kind])

theorem read_string (kind : word.kind = .string) :
    IsRead .primary [word] (.literal word.literal) :=
  read_word kind rfl (by decide) fun _ _ kind front => by
    rw [primary]
    exact bind_of_ok front (by rw [kind])

theorem read_this (kind : word.kind = Keyword.thisWord) :
    IsRead .primary [word] (.this word) :=
  read_word kind rfl (by decide) fun _ _ kind front => by
    rw [primary]
    exact bind_of_ok front (by rw [kind])

theorem read_variable (kind : word.kind = .identifier) :
    IsRead .primary [word] (.variable word) :=
  read_word kind rfl (by decide) fun _ _ kind front => by
    rw [primary]
    exact bind_of_ok front (by rw [kind])

theorem read_super {dot method : Occurrence} (keywordKind : word.kind = Keyword.superWord)
    (dotKind : dot.kind = Symbol.dot) (methodKind : method.kind = .identifier) :
    IsRead .primary [word, dot, method] (.super word method) := by
  refine ⟨startsOperand_of_kind keywordKind rfl, ?_⟩
  intro rest faults depth _ room
  rcases Nat.exists_eq_add_of_le' (by omega : 1 ≤ depth) with ⟨depth, rfl⟩
  simp only [List.cons_append, List.nil_append]
  rw [primary]
  apply bind_of_ok next_front
  rw [keywordKind]
  apply bind_of_ok (skip_front (by simp [keywordKind]))
  apply bind_of_ok (expect_taken dotKind)
  exact bind_of_ok (expect_taken methodKind) rfl

theorem read_grouping {rightParen : Occurrence} {tokens : List Occurrence} {inner : Expr}
    (leftParenKind : word.kind = Symbol.leftParen)
    (innerRead : IsRead .expression tokens inner)
    (rightParenKind : rightParen.kind = Symbol.rightParen) :
    IsRead .primary (word :: (tokens ++ [rightParen])) (.grouping inner) := by
  refine ⟨startsOperand_of_kind leftParenKind rfl, ?_⟩
  intro rest faults depth _ room
  simp only [List.length_append, List.length_cons, List.length_nil] at room
  rcases Nat.exists_eq_add_of_le' (by omega : 1 ≤ depth) with ⟨depth, rfl⟩
  simp only [List.cons_append, List.append_assoc, List.nil_append]
  rw [primary]
  apply bind_of_ok next_front
  rw [leftParenKind]
  apply bind_of_ok (skip_front (by simp [leftParenKind]))
  refine bind_of_ok (innerRead (rightParen :: rest) faults depth
    (.cons (by rw [rightParenKind]; decide)) (by simp only [List.length_cons]; omega)) ?_
  exact bind_of_ok (expect_taken rightParenKind) rfl

end Primary

/-! ## Assignments -/

theorem read_joined_of_call {tokens : List Occurrence} {tree : Expr}
    (read : IsRead .call tokens tree) : IsRead (.joined .disjunction) tokens tree := by
  rcases id read with ⟨⟨first, others, rfl, -⟩, -⟩
  have nonempty : first :: others ≠ [] := by simp
  have factor : IsRead (.joined .factor) _ tree :=
    read_single nonempty (read_unary (read_call read))
  have term : IsRead (.joined .term) _ tree :=
    read_single nonempty (read_operand rfl factor)
  have comparison : IsRead (.joined .comparison) _ tree :=
    read_single nonempty (read_operand rfl term)
  have equality : IsRead (.joined .equality) _ tree :=
    read_single nonempty (read_operand rfl comparison)
  have conjunction : IsRead (.joined .conjunction) _ tree :=
    read_single nonempty (read_operand rfl equality)
  exact read_single nonempty (read_operand rfl conjunction)

theorem read_unassigned {tokens : List Occurrence} {tree : Expr}
    (read : IsRead (.joined .disjunction) tokens tree) :
    IsRead .expression tokens tree := by
  intro rest faults depth stops room
  rcases Nat.exists_eq_add_of_le' (by omega : 1 ≤ depth) with ⟨depth, rfl⟩
  rw [expression]
  refine bind_of_ok (takes_of_joined read rest faults depth
    (stops.mono (by decide)) (by simp only [levelHeight]; omega)) ?_
  rcases stops with ⟨token, front, less⟩
  refine bind_of_ok (accept_refused ⟨token, front, fun same => ?_⟩) rfl
  rw [same] at less
  exact absurd less (by decide)

theorem read_assignment {equal : Occurrence} {before tokens : List Occurrence}
    {target value assignment : Expr} (targetRead : IsRead .call before target)
    (equalKind : equal.kind = Symbol.equal) (valueRead : IsRead .expression tokens value)
    (assigning : target.assigning? value = some assignment) :
    IsRead .expression (before ++ equal :: tokens) assignment := by
  intro rest faults depth stops room
  simp only [List.length_append, List.length_cons] at room
  rcases Nat.exists_eq_add_of_le' (by omega : 1 ≤ depth) with ⟨depth, rfl⟩
  simp only [List.cons_append, List.append_assoc]
  rw [expression]
  refine bind_of_ok
    (takes_of_joined (read_joined_of_call targetRead) (equal :: (tokens ++ rest))
    faults depth (.cons (by rw [equalKind]; decide))
    (by simp only [levelHeight, List.length_append, List.length_cons]; omega)) ?_
  apply bind_of_ok (accept_taken equalKind)
  apply bind_of_ok (valueRead rest faults depth stops (by omega))
  rw [assigning]
  rfl

/-! ## All phrases -/

theorem stops_of_furtherArguments {tokens : List Occurrence} {list : List Expr}
    (phrase : Expression .furtherArguments tokens list) (rest : List Occurrence)
    (closes : Closes rest) : Stops 1 (tokens ++ rest) := by
  cases phrase with
  | noFurtherArguments => exact closes.stops (by decide)
  | furtherArgument commaKind _ _ => exact .cons (by rw [commaKind]; decide)

/-- Every phrase is read. -/
theorem read_of_expression {phrase : ExpressionPhrase} {tokens : List Occurrence}
    {tree : phrase.Tree} (derivation : Expression phrase tokens tree) :
    IsRead phrase tokens tree := by
  induction derivation with
  | assignVariable nameKind equalKind _ valueRead =>
      exact read_assignment (read_primary (read_variable nameKind)) equalKind valueRead
        rfl
  | assignProperty _ dotKind nameKind equalKind _ objectRead valueRead =>
      simpa using read_assignment (read_callProperty objectRead dotKind nameKind)
        equalKind valueRead rfl
  | unassigned _ read => exact read_unassigned read
  | single phrase read =>
      rcases phrase.starts rfl with ⟨first, rest, rfl, -⟩
      exact read_single (by simp) read
  | further _ wordKind _ leftRead rightRead =>
    exact read_further leftRead wordKind rightRead
  | conjunction _ read | equality _ read | comparison _ read | term _ read | factor _ read =>
      exact read_operand rfl read
  | unary _ read => exact read_unary read
  | unaryOperator wordKind _ read => exact read_unaryOperator wordKind read
  | call _ read => exact read_call read
  | primary _ read => exact read_primary read
  | callArguments _ leftParenKind _ bound rightParenKind calleeRead argumentsRead =>
      exact read_callArguments calleeRead leftParenKind argumentsRead bound rightParenKind
  | callProperty _ dotKind nameKind objectRead =>
      exact read_callProperty objectRead dotKind nameKind
  | falseLiteral kind => exact read_falseLiteral kind
  | trueLiteral kind => exact read_trueLiteral kind
  | nilLiteral kind => exact read_nilLiteral kind
  | number kind => exact read_number kind
  | string kind => exact read_string kind
  | super keywordKind dotKind methodKind =>
    exact read_super keywordKind dotKind methodKind
  | this kind => exact read_this kind
  | «variable» kind => exact read_variable kind
  | grouping leftParenKind _ rightParenKind innerRead =>
      exact read_grouping leftParenKind innerRead rightParenKind
  | noArguments => exact read_noArguments
  | someArguments argument others argumentRead othersRead =>
      exact read_someArguments (argument.starts rfl) argumentRead
        (stops_of_furtherArguments others) othersRead
  | noFurtherArguments => exact read_noFurtherArguments
  | furtherArgument commaKind _ others argumentRead othersRead =>
      exact read_furtherArgument commaKind argumentRead (stops_of_furtherArguments others)
        othersRead

end LoxLang.Reader
