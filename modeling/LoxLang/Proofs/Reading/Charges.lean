import LoxLang.Proofs.Reading.StatementSoundness

/-! # Every fault is paid for by a token

Readers note no more faults than they take tokens. A token taken is a credit and a fault
spends one: a reader of something that cannot be empty earns one credit more than it
spends, the others need one credit to start with and leave one. A declaration given up
before its first token owes the one token that is then skipped.
-/

namespace LoxLang

structure Stream.Holds (tokens : List Occurrence) (stream : Stream) : Prop where
  rest : stream.rest ⊆ tokens
  finishes : stream.Finishes

namespace Stream.Holds

variable {tokens : List Occurrence} {stream after : Stream}

theorem later {taken : List Occurrence} {added : List ReadingFault}
    (holds : stream.Holds tokens) (reads : stream.Reads after taken added) :
    after.Holds tokens where
  rest := List.Subset.trans (List.subset_append_right taken _) (reads.rest ▸ holds.rest)
  finishes := reads.finishes holds.finishes

theorem front {word : Occurrence} (holds : stream.Holds tokens)
    (front : word ∈ stream.rest.head?) : word ∈ tokens :=
  holds.rest (List.mem_of_mem_head? front)

end Stream.Holds

namespace Reader

/-- From `credit` the reader comes to a result with at least `gain`. Giving up, it may owe
one token if it had no credit and took nothing. All faults are noted at `tokens`. -/
def Pays (tokens : List Occurrence) (credit : Nat) (reader : Reader α) (stream : Stream)
    (gain : Nat) : Prop :=
  stream.Holds tokens →
    match reader stream with
    | .ok _ after => ∃ taken added, stream.Reads after taken added ∧
        (∀ fault ∈ added, fault.token ∈ tokens) ∧
        added.length + gain ≤ taken.length + credit
    | .error _ after => ∃ taken added, stream.Reads after taken added ∧
        (∀ fault ∈ added, fault.token ∈ tokens) ∧
        added.length ≤ max 1 (taken.length + credit)

variable {α β : Type} {tokens : List Occurrence} {credit gain : Nat} {stream : Stream}

/-! ## Rules for single steps -/

theorem pays_pure {result : α} (enough : gain ≤ credit) :
    (pure result : Reader α).Pays tokens credit stream gain :=
  fun _ => ⟨[], [], .refl stream, by simp, by simpa using enough⟩

theorem pays_tooDeep : (tooDeep : Reader α).Pays tokens credit stream gain :=
  fun _ => ⟨[], [], .refl stream, by simp, by simp⟩

theorem Pays.extend {reader : Reader α} (pays : reader.Pays tokens credit stream gain)
    {credit' gain' : Nat} (enough : credit ≤ credit')
    (kept : gain' + credit ≤ gain + credit') :
    reader.Pays tokens credit' stream gain' := by
  intro holds
  have pays := pays holds
  split at pays
  · rcases pays with ⟨taken, added, reads, blamed, bound⟩
    exact ⟨taken, added, reads, blamed, by omega⟩
  · rcases pays with ⟨taken, added, reads, blamed, bound⟩
    exact ⟨taken, added, reads, blamed, by omega⟩

/-- The second reader spends what the first one left, which is at least one credit. -/
theorem Pays.bind {first : Reader β} {second : β → Reader α} {middle : Nat}
    (firstPays : first.Pays tokens credit stream middle) (positive : 0 < middle)
    (secondPays : ∀ result after, first stream = .ok result after →
      (second result).Pays tokens middle after gain) :
    (first >>= second).Pays tokens credit stream gain := by
  intro holds
  have firstPays := firstPays holds
  simp only [Bind.bind, EStateM.bind]
  cases outcome : first stream with
  | error stop after =>
      rw [outcome] at firstPays
      exact firstPays
  | ok result after =>
      rw [outcome] at firstPays
      rcases firstPays with ⟨taken, added, reads, blamed, bound⟩
      have next := secondPays result after outcome (holds.later reads)
      dsimp only
      split at next
      all_goals
        rcases next with ⟨taken', added', reads', blamed', bound'⟩
        refine ⟨_, _, reads.trans reads', ?_, ?_⟩
        · simpa [or_imp, forall_and] using ⟨blamed, blamed'⟩
        · simp only [List.length_append]
          omega

theorem Pays.map {reader : Reader β} {transform : β → α}
    (pays : reader.Pays tokens credit stream gain) :
    (transform <$> reader).Pays tokens credit stream gain := by
  intro holds
  have pays := pays holds
  simp only [Functor.map, EStateM.map]
  cases outcome : reader stream with
  | ok result after => rwa [outcome] at pays
  | error stop after => rwa [outcome] at pays

section Steps

variable {second : β → Reader α}

theorem pays_of_next {second : Occurrence → Reader α}
    (pays : ∀ word ∈ stream.rest.head?, (second word).Pays tokens credit stream gain) :
    (next >>= second).Pays tokens credit stream gain := by
  intro holds
  obtain ⟨word, rest, shape⟩ := holds.finishes.front
  have front : next stream = .ok word stream := by rw [next, shape]
  rw [bind_of_ok front rfl]
  exact pays word (by simp [shape]) holds

theorem pays_of_follows {kind : Kind} {second : Bool → Reader α}
    (pays : ∀ answer, (second answer).Pays tokens credit stream gain) :
    (follows kind >>= second).Pays tokens credit stream gain := by
  rw [follows, bind_assoc]
  exact pays_of_next fun word _ => by simpa only [pure_bind] using pays _

theorem pays_of_missing {expectation : Expectation} :
    (missing expectation >>= second).Pays tokens credit stream gain := by
  rw [missing, bind_assoc]
  refine pays_of_next fun word front holds =>
    ⟨[], [⟨word, .expected expectation⟩], ⟨rfl, by simp, by simp⟩, ?_, ?_⟩
  · simpa using holds.front front
  · exact Nat.le_max_left _ _

theorem pays_missing {expectation : Expectation} :
    (missing expectation : Reader α).Pays tokens credit stream gain := by
  rw [← bind_pure (missing expectation)]
  exact pays_of_missing

private theorem pays_of_taken {first : Reader β} {result : β} {after : Stream}
    {token : Occurrence} (outcome : first stream = .ok result after)
    (reads : stream.Reads after [token] [])
    (pays : (second result).Pays tokens (credit + 1) after gain) :
    (first >>= second).Pays tokens credit stream gain := by
  have step : first.Pays tokens credit stream (credit + 1) := by
    intro _
    rw [outcome]
    exact ⟨[token], [], reads, by simp, by simp [Nat.add_comm]⟩
  refine step.bind (by omega) fun result' after' outcome' => ?_
  obtain ⟨rfl, rfl⟩ := EStateM.Result.ok.inj (outcome.symm.trans outcome')
  exact pays

theorem pays_of_skip {second : Unit → Reader α} {word : Occurrence}
    (front : word ∈ stream.rest.head?) (inside : word.kind ≠ .endOfInput)
    (pays : ∀ after, (second ()).Pays tokens (credit + 1) after gain) :
    (skip >>= second).Pays tokens credit stream gain := by
  obtain ⟨rest, faults⟩ := stream
  obtain ⟨later, rfl⟩ := List.head?_eq_some_iff.mp front
  exact pays_of_taken (skip_front inside) ⟨rfl, by simpa using inside, by simp⟩ (pays _)

theorem pays_of_complain {token : Occurrence} {cause : ReadingCause}
    {second : Unit → Reader α} (member : stream.Holds tokens → token ∈ tokens)
    (positive : 0 < credit)
    (pays : ∀ after, (second ()).Pays tokens credit after gain) :
    (complain token cause >>= second).Pays tokens (credit + 1) stream gain := by
  refine Pays.bind (fun holds => ?_) positive fun _ after _ => pays after
  exact ⟨[], [⟨token, cause⟩], ⟨rfl, by simp, by simp⟩, by simpa using member holds,
    by simp [Nat.add_comm]⟩

theorem pays_of_acceptAs {choose : Kind → Option β}
    {second : Option (β × Occurrence) → Reader α} (inside : choose .endOfInput = none)
    (accepted : ∀ token use after, token ∈ tokens →
      (second (some (use, token))).Pays tokens (credit + 1) after gain)
    (refused : (second none).Pays tokens credit stream gain) :
    (acceptAs choose >>= second).Pays tokens credit stream gain := by
  rw [acceptAs, bind_assoc]
  refine pays_of_next fun word front => ?_
  cases chosen : choose word.kind with
  | none => simpa only [pure_bind] using refused
  | some use =>
      simp only [bind_assoc, pure_bind]
      have different : word.kind ≠ .endOfInput := fun same => by
        rw [same, inside] at chosen
        cases chosen
      exact fun holds => pays_of_skip front different
        (fun after => accepted word use after (holds.front front)) holds

theorem pays_of_accept {kind : Kind} [inside : kind.Inside]
    {second : Option Occurrence → Reader α}
    (accepted : ∀ token after, token ∈ tokens →
      (second (some token)).Pays tokens (credit + 1) after gain)
    (refused : (second none).Pays tokens credit stream gain) :
    (accept kind >>= second).Pays tokens credit stream gain := by
  have unfolded : (accept kind >>= second) =
      (acceptAs (fun other => if other = kind then some () else none) >>= fun found =>
        second (found.map (·.2))) := by
    simp only [accept, bind_assoc, pure_bind]
  rw [unfolded]
  exact pays_of_acceptAs (if_neg inside.ne_end.symm)
    (fun token _ after => accepted token after) refused

theorem pays_of_expect {kind : Kind} [kind.Inside] {expectation : Expectation}
    {second : Occurrence → Reader α}
    (pays : ∀ token after, (second token).Pays tokens (credit + 1) after gain) :
    (expect kind expectation >>= second).Pays tokens credit stream gain := by
  rw [expect, bind_assoc]
  refine pays_of_accept ?_ ?_
  · intro token after _
    simpa only [pure_bind] using pays token after
  · exact pays_of_missing

end Steps

/-! ## Readers of expressions -/

/-- The reader takes a token more than it notes faults. -/
def Earns (tokens : List Occurrence) (reader : Reader α) (stream : Stream) : Prop :=
  reader.Pays tokens 0 stream 1

/-- With a credit to start from, the reader leaves one. -/
def BreaksEven (tokens : List Occurrence) (reader : Reader α) (stream : Stream) : Prop :=
  reader.Pays tokens 1 stream 1

theorem Earns.pays {reader : Reader α} (earns : reader.Earns tokens stream)
    (enough : gain ≤ credit + 1) : reader.Pays tokens credit stream gain :=
  Pays.extend earns (by omega) (by omega)

theorem Earns.map {reader : Reader β} {transform : β → α}
    (earns : reader.Earns tokens stream) : (transform <$> reader).Earns tokens stream :=
  Pays.map earns

theorem BreaksEven.pays {reader : Reader α} (even : reader.BreaksEven tokens stream)
    (enough : gain ≤ credit + 1) : reader.Pays tokens (credit + 1) stream gain :=
  Pays.extend even (by omega) (by omega)

theorem Earns.bind {first : Reader β} {second : β → Reader α}
    (earns : first.Earns tokens stream)
    (pays : ∀ result after, first stream = .ok result after →
      (second result).Pays tokens (credit + 1) after gain) :
    (first >>= second).Pays tokens credit stream gain :=
  (earns.pays (Nat.le_refl _)).bind (by omega) pays

theorem BreaksEven.bind {first : Reader β} {second : β → Reader α}
    (even : first.BreaksEven tokens stream)
    (pays : ∀ result after, first stream = .ok result after →
      (second result).Pays tokens (credit + 1) after gain) :
    (first >>= second).Pays tokens (credit + 1) stream gain :=
  (even.pays (Nat.le_refl _)).bind (by omega) pays

structure ExpressionsPay (tokens : List Occurrence) (depth : Nat) : Prop where
  expression : ∀ stream, (expression depth).Earns tokens stream
  joined : ∀ level stream, (joined depth level).Earns tokens stream
  operand : ∀ level stream, (operand depth level).Earns tokens stream
  joinedTo : ∀ level left stream, (joinedTo depth level left).BreaksEven tokens stream
  unary : ∀ stream, (unary depth).Earns tokens stream
  suffixed : ∀ callee stream, (suffixed depth callee).BreaksEven tokens stream
  arguments : ∀ stream, (arguments depth).BreaksEven tokens stream
  moreArguments : ∀ count stream, (moreArguments depth count).BreaksEven tokens stream
  primary : ∀ stream, (primary depth).Earns tokens stream

variable {depth : Nat}

theorem expression_pays (readers : ExpressionsPay tokens depth) :
    (expression (depth + 1)).Earns tokens stream := by
  rw [Earns, expression]
  refine (readers.joined .disjunction stream).bind fun target after _ => ?_
  refine pays_of_accept (fun word after member => ?_) (pays_pure (by omega))
  refine (readers.expression after).bind fun value after _ => ?_
  split
  · exact pays_pure (by omega)
  · exact pays_of_complain (fun _ => member) (by omega) fun _ => pays_pure (by omega)

theorem joined_pays {level : Level} (readers : ExpressionsPay tokens depth) :
    (joined (depth + 1) level).Earns tokens stream := by
  rw [Earns, joined]
  refine (readers.operand level stream).bind fun left after _ => ?_
  exact readers.joinedTo level left after

theorem operand_pays {level : Level} (readers : ExpressionsPay tokens depth) :
    (operand (depth + 1) level).Earns tokens stream := by
  rw [operand]
  split
  · exact readers.joined _ stream
  · exact readers.unary stream

theorem joinedTo_pays {level : Level} {left : Expr} (readers : ExpressionsPay tokens depth) :
    (joinedTo (depth + 1) level left).BreaksEven tokens stream := by
  rw [BreaksEven, joinedTo]
  refine pays_of_acceptAs (by cases level <;> rfl) (fun word connective after _ => ?_)
    (pays_pure (by omega))
  refine (readers.operand level after).bind fun right after _ => ?_
  exact (readers.joinedTo level _ after).pays (by omega)

theorem unary_pays (readers : ExpressionsPay tokens depth) :
    (unary (depth + 1)).Earns tokens stream := by
  rw [Earns, unary]
  refine pays_of_acceptAs rfl (fun word operator after _ => ?_) ?_
  · exact (readers.unary after).bind fun _ _ _ => pays_pure (by omega)
  · refine (readers.primary stream).bind fun callee after _ => ?_
    exact readers.suffixed callee after

theorem suffixed_pays {callee : Expr} (readers : ExpressionsPay tokens depth) :
    (suffixed (depth + 1) callee).BreaksEven tokens stream := by
  rw [BreaksEven, suffixed]
  refine pays_of_accept (fun leftParen after _ => ?_) (pays_of_accept (fun dot after _ => ?_)
    (pays_pure (by omega)))
  · refine (readers.arguments after).bind fun list after _ => ?_
    refine pays_of_expect fun paren after => ?_
    exact (readers.suffixed _ after).pays (by omega)
  · refine pays_of_expect fun name after => ?_
    exact (readers.suffixed _ after).pays (by omega)

theorem arguments_pay (readers : ExpressionsPay tokens depth) :
    (arguments (depth + 1)).BreaksEven tokens stream := by
  rw [BreaksEven, arguments]
  refine pays_of_follows fun answer => ?_
  split
  · exact pays_pure (by omega)
  · refine (readers.expression stream).bind fun first after _ => ?_
    refine (readers.moreArguments 1 after).bind fun others after _ => ?_
    exact pays_pure (by omega)

theorem moreArguments_pay {count : Nat} (readers : ExpressionsPay tokens depth) :
    (moreArguments (depth + 1) count).BreaksEven tokens stream := by
  rw [BreaksEven, moreArguments]
  have further : ∀ after, (do
      let argument ← expression depth
      let others ← moreArguments depth (count + 1)
      pure (argument :: others) : Reader (List Expr)).Pays tokens 1 after 1 := by
    intro after
    refine (readers.expression after).bind fun argument after _ => ?_
    refine (readers.moreArguments _ after).bind fun others after _ => ?_
    exact pays_pure (by omega)
  refine pays_of_accept (fun comma after _ => ?_) (pays_pure (by omega))
  dsimp only
  split
  · exact pays_of_next fun word front =>
      pays_of_complain (fun holds => holds.front front) (by omega) further
  · exact (further after).extend (by omega) (by omega)

theorem primary_pays (readers : ExpressionsPay tokens depth) :
    (primary (depth + 1)).Earns tokens stream := by
  rw [Earns, primary]
  refine pays_of_next fun word front => ?_
  split
  case h_6 kind =>
    refine pays_of_skip front (by simp [kind]) fun after => ?_
    refine pays_of_expect fun dot after => pays_of_expect fun method after => ?_
    exact pays_pure (by omega)
  case h_9 kind =>
    refine pays_of_skip front (by simp [kind]) fun after => ?_
    refine (readers.expression after).bind fun inner after _ => ?_
    exact pays_of_expect fun _ _ => pays_pure (by omega)
  case h_10 => exact pays_missing
  all_goals
    rename_i kind
    exact pays_of_skip front (by simp [kind]) fun _ => pays_pure (by omega)

theorem expressionsPay (tokens : List Occurrence) : ∀ depth, ExpressionsPay tokens depth
  | 0 => by constructor <;> intros <;> exact pays_tooDeep
  | depth + 1 =>
      have readers := expressionsPay tokens depth
      { expression := fun _ => expression_pays readers
        joined := fun _ _ => joined_pays readers
        operand := fun _ _ => operand_pays readers
        joinedTo := fun _ _ _ => joinedTo_pays readers
        unary := fun _ => unary_pays readers
        suffixed := fun _ _ => suffixed_pays readers
        arguments := fun _ => arguments_pay readers
        moreArguments := fun _ _ => moreArguments_pay readers
        primary := fun _ => primary_pays readers }

/-! ## Readers of statements -/

theorem expressionUnless_pays {kind : Kind} :
    (expressionUnless kind depth).BreaksEven tokens stream := by
  rw [BreaksEven, expressionUnless]
  refine pays_of_follows fun answer => ?_
  split
  · exact pays_pure (by omega)
  · exact ((expressionsPay tokens depth).expression stream).map.pays (by omega)

theorem expressionStatement_pays : (expressionStatement depth).Earns tokens stream := by
  rw [Earns, expressionStatement]
  refine ((expressionsPay tokens depth).expression stream).bind fun expression after _ => ?_
  exact pays_of_expect fun _ _ => pays_pure (by omega)

theorem printStatement_pays : (printStatement depth).Earns tokens stream := by
  rw [Earns, printStatement]
  refine ((expressionsPay tokens depth).expression stream).bind fun expression after _ => ?_
  exact pays_of_expect fun _ _ => pays_pure (by omega)

theorem returnStatement_pays {keyword : Occurrence} :
    (returnStatement keyword depth).BreaksEven tokens stream := by
  rw [BreaksEven, returnStatement]
  refine expressionUnless_pays.bind fun value after _ => ?_
  exact pays_of_expect fun _ _ => pays_pure (by omega)

theorem varDeclaration_pays : (varDeclaration depth).Earns tokens stream := by
  rw [Earns, varDeclaration]
  refine pays_of_expect fun name after => pays_of_accept (fun equal after _ => ?_) ?_
  · simp only [bind_map_left]
    refine ((expressionsPay tokens depth).expression after).bind fun value after _ => ?_
    exact pays_of_expect fun _ _ => pays_pure (by omega)
  · simp only [pure_bind]
    exact pays_of_expect fun _ _ => pays_pure (by omega)

theorem superclass_pays : superclass.BreaksEven tokens stream := by
  rw [BreaksEven, superclass]
  refine pays_of_accept (fun less after _ => ?_) (pays_pure (by omega))
  rw [map_eq_pure_bind]
  exact pays_of_expect fun _ _ => pays_pure (by omega)

theorem forInitializer_pays : (forInitializer depth).Earns tokens stream := by
  rw [Earns, forInitializer]
  refine pays_of_next fun word front => ?_
  split
  case h_1 kind => exact pays_of_skip front (by simp [kind]) fun _ => pays_pure (by omega)
  case h_2 kind =>
    refine pays_of_skip front (by simp [kind]) fun after => ?_
    exact varDeclaration_pays.map.pays (by omega)
  case h_3 => exact expressionStatement_pays.map

theorem moreParameters_pay : ∀ {depth : Nat} {count : Nat} {stream : Stream},
    (moreParameters depth count).BreaksEven tokens stream
  | 0, _, _ => pays_tooDeep
  | depth + 1, count, stream => by
      rw [BreaksEven, moreParameters]
      have further : ∀ after, (do
          let parameter ← expect .identifier .parameterName
          let others ← moreParameters depth (count + 1)
          pure (parameter :: others) : Reader (List Occurrence)).Pays tokens 1 after 1 := by
        intro after
        refine pays_of_expect fun parameter after => ?_
        refine moreParameters_pay.bind fun others after _ => ?_
        exact pays_pure (by omega)
      refine pays_of_accept (fun comma after _ => ?_) (pays_pure (by omega))
      dsimp only
      split
      · exact pays_of_next fun word front =>
          pays_of_complain (fun holds => holds.front front) (by omega) further
      · exact (further after).extend (by omega) (by omega)

theorem parameters_pay : (parameters depth).BreaksEven tokens stream := by
  rw [BreaksEven, parameters]
  refine pays_of_follows fun answer => ?_
  split
  · exact pays_pure (by omega)
  · refine pays_of_expect fun first after => ?_
    refine moreParameters_pay.bind fun others after _ => ?_
    exact pays_pure (by omega)

structure StatementsPay (tokens : List Occurrence) (depth : Nat) : Prop where
  declarations : ∀ extent stream, (declarations depth extent).BreaksEven tokens stream
  declaration : ∀ stream, ¬Ends .wholeInput stream.rest →
    (declaration depth).BreaksEven tokens stream
  wholeDeclaration : ∀ stream, (wholeDeclaration depth).Earns tokens stream
  classDeclaration : ∀ stream, (classDeclaration depth).BreaksEven tokens stream
  methods : ∀ stream, (methods depth).BreaksEven tokens stream
  routine : ∀ kind stream, (routine depth kind).Earns tokens stream
  block : ∀ stream, (block depth).BreaksEven tokens stream
  statement : ∀ stream, (statement depth).Earns tokens stream
  forStatement : ∀ stream, (forStatement depth).BreaksEven tokens stream
  ifStatement : ∀ stream, (ifStatement depth).BreaksEven tokens stream
  whileStatement : ∀ stream, (whileStatement depth).BreaksEven tokens stream

private theorem pays_of_ended {extent : Extent} {second : Bool → Reader α}
    (pays : ∀ answer, (answer = true ↔ Ends extent stream.rest) →
      (second answer).Pays tokens credit stream gain) :
    (ended extent >>= second).Pays tokens credit stream gain := by
  intro holds
  rcases ended_outcome extent holds.finishes with ⟨answer, outcome, finished⟩
  rw [bind_of_ok outcome rfl]
  exact pays answer finished holds

theorem declarations_pay {extent : Extent} (readers : StatementsPay tokens depth) :
    (declarations (depth + 1) extent).BreaksEven tokens stream := by
  rw [BreaksEven, declarations]
  refine pays_of_ended fun answer finished => ?_
  split
  case isTrue => exact pays_pure (by omega)
  case isFalse unended =>
    have unended : ¬Ends .wholeInput stream.rest := fun ends =>
      unended (finished.mpr (ends.of_wholeInput extent))
    refine (readers.declaration stream unended).bind fun first after _ => ?_
    refine (readers.declarations extent after).bind fun others after _ => ?_
    exact pays_pure (by omega)

/-- A declaration given up before its first token is paid for by the token skipped. -/
theorem declaration_pays (readers : StatementsPay tokens depth)
    (unended : ¬Ends .wholeInput stream.rest) :
    (declaration (depth + 1)).BreaksEven tokens stream := by
  intro holds
  have pays := readers.wholeDeclaration stream holds
  rw [declaration_eq]
  cases outcome : wholeDeclaration depth stream with
  | ok tree after =>
      rw [outcome] at pays
      rcases pays with ⟨taken, added, reads, blamed, bound⟩
      exact ⟨taken, added, reads, blamed, by omega⟩
  | error interruption after =>
      rw [outcome] at pays
      rcases pays with ⟨taken, added, reads, blamed, bound⟩
      cases interruption with
      | pastEnd | tooDeep => exact ⟨taken, added, reads, blamed, by omega⟩
      | abandoned =>
          rcases resume_delivers (reads.finishes holds.finishes) with
            ⟨_, after', resumed, skipped, _, reads', progress, rfl, -⟩
          dsimp only
          rw [bind_of_ok resumed rfl]
          refine ⟨taken ++ skipped, added ++ [], reads.trans reads', by simpa using blamed,
            ?_⟩
          have some_taken : 0 < (taken ++ skipped).length := by
            cases taken with
            | cons token taken => simp
            | nil =>
                rw [reads.rest, List.nil_append] at unended
                simpa using List.length_pos_iff.mpr (progress unended)
          simp only [List.length_append, List.append_nil] at some_taken ⊢
          omega

theorem wholeDeclaration_pays (readers : StatementsPay tokens depth) :
    (wholeDeclaration (depth + 1)).Earns tokens stream := by
  rw [Earns, wholeDeclaration]
  refine pays_of_next fun word front => ?_
  split
  case h_1 kind =>
    exact pays_of_skip front (by simp [kind]) fun after => readers.classDeclaration after
  case h_2 kind =>
    refine pays_of_skip front (by simp [kind]) fun after => ?_
    exact (readers.routine .function after).map.pays (by omega)
  case h_3 kind =>
    refine pays_of_skip front (by simp [kind]) fun after => ?_
    exact varDeclaration_pays.pays (by omega)
  case h_4 => exact readers.statement stream

theorem classDeclaration_pays (readers : StatementsPay tokens depth) :
    (classDeclaration (depth + 1)).BreaksEven tokens stream := by
  rw [BreaksEven, classDeclaration]
  refine pays_of_expect fun name after => ?_
  refine superclass_pays.bind fun superclass after _ => ?_
  refine pays_of_expect fun leftBrace after => ?_
  refine (readers.methods after).bind fun methods after _ => ?_
  exact pays_of_expect fun _ _ => pays_pure (by omega)

theorem methods_pay (readers : StatementsPay tokens depth) :
    (methods (depth + 1)).BreaksEven tokens stream := by
  rw [BreaksEven, methods]
  refine pays_of_ended fun answer _ => ?_
  split
  · exact pays_pure (by omega)
  · refine (readers.routine .method stream).bind fun first after _ => ?_
    refine (readers.methods after).bind fun others after _ => ?_
    exact pays_pure (by omega)

theorem routine_pays {kind : RoutineKind} (readers : StatementsPay tokens depth) :
    (routine (depth + 1) kind).Earns tokens stream := by
  rw [Earns, routine]
  refine pays_of_expect fun name after => pays_of_expect fun leftParen after => ?_
  refine parameters_pay.bind fun parameters after _ => ?_
  refine pays_of_expect fun rightParen after => pays_of_expect fun leftBrace after => ?_
  refine (readers.block after).bind fun body after _ => ?_
  exact pays_pure (by omega)

theorem block_pays (readers : StatementsPay tokens depth) :
    (block (depth + 1)).BreaksEven tokens stream := by
  rw [BreaksEven, block]
  refine (readers.declarations .block stream).bind fun statements after _ => ?_
  exact pays_of_expect fun _ _ => pays_pure (by omega)

theorem statement_pays (readers : StatementsPay tokens depth) :
    (statement (depth + 1)).Earns tokens stream := by
  rw [Earns, statement]
  refine pays_of_next fun word front => ?_
  split
  case h_1 kind =>
    exact pays_of_skip front (by simp [kind]) fun after => readers.forStatement after
  case h_2 kind =>
    exact pays_of_skip front (by simp [kind]) fun after => readers.ifStatement after
  case h_3 kind =>
    refine pays_of_skip front (by simp [kind]) fun after => ?_
    exact printStatement_pays.pays (by omega)
  case h_4 kind => exact pays_of_skip front (by simp [kind]) fun after => returnStatement_pays
  case h_5 kind =>
    exact pays_of_skip front (by simp [kind]) fun after => readers.whileStatement after
  case h_6 kind =>
    exact pays_of_skip front (by simp [kind]) fun after => Pays.map (readers.block after)
  case h_7 => exact expressionStatement_pays

theorem forStatement_pays (readers : StatementsPay tokens depth) :
    (forStatement (depth + 1)).BreaksEven tokens stream := by
  rw [BreaksEven, forStatement]
  refine pays_of_expect fun leftParen after => ?_
  refine forInitializer_pays.bind fun initializer after _ => ?_
  refine expressionUnless_pays.bind fun condition after _ => ?_
  refine pays_of_expect fun semicolon after => ?_
  refine expressionUnless_pays.bind fun increment after _ => ?_
  refine pays_of_expect fun rightParen after => ?_
  exact (readers.statement after).bind fun _ _ _ => pays_pure (by omega)

theorem ifStatement_pays (readers : StatementsPay tokens depth) :
    (ifStatement (depth + 1)).BreaksEven tokens stream := by
  rw [BreaksEven, ifStatement]
  refine pays_of_expect fun leftParen after => ?_
  refine ((expressionsPay tokens depth).expression after).bind fun condition after _ => ?_
  refine pays_of_expect fun rightParen after => ?_
  refine (readers.statement after).bind fun thenBranch after _ => ?_
  refine pays_of_accept (fun elseWord after _ => ?_) ?_
  · simp only [bind_map_left]
    exact (readers.statement after).bind fun _ _ _ => pays_pure (by omega)
  · simp only [pure_bind]
    exact pays_pure (by omega)

theorem whileStatement_pays (readers : StatementsPay tokens depth) :
    (whileStatement (depth + 1)).BreaksEven tokens stream := by
  rw [BreaksEven, whileStatement]
  refine pays_of_expect fun leftParen after => ?_
  refine ((expressionsPay tokens depth).expression after).bind fun condition after _ => ?_
  refine pays_of_expect fun rightParen after => ?_
  exact (readers.statement after).bind fun _ _ _ => pays_pure (by omega)

theorem statementsPay (tokens : List Occurrence) : ∀ depth, StatementsPay tokens depth
  | 0 => by constructor <;> intros <;> exact pays_tooDeep
  | depth + 1 =>
      have readers := statementsPay tokens depth
      { declarations := fun _ _ => declarations_pay readers
        declaration := fun _ unended => declaration_pays readers unended
        wholeDeclaration := fun _ => wholeDeclaration_pays readers
        classDeclaration := fun _ => classDeclaration_pays readers
        methods := fun _ => methods_pay readers
        routine := fun _ _ => routine_pays readers
        block := fun _ => block_pays readers
        statement := fun _ => statement_pays readers
        forStatement := fun _ => forStatement_pays readers
        ifStatement := fun _ => ifStatement_pays readers
        whileStatement := fun _ => whileStatement_pays readers }

end Reader

end LoxLang
