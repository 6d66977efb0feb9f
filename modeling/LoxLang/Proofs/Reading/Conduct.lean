import LoxLang.Reading.Stream

/-! # How readers behave

In a stream with an end of input ahead, a reader takes tokens from the front, all before
that end, and adds faults behind those noted before; it is interrupted only to abandon a
declaration, and only after noting a fault. `Reader.Meets` says so, and says in addition
what holds of a result. Its rules follow the combinators from which readers are made.
-/

namespace LoxLang

/-- The kinds of the tokens before the end of the input. -/
class Kind.Inside (kind : Kind) : Prop where
  ne_end : kind ≠ .endOfInput

instance (symbol : Symbol) : Kind.Inside symbol := ⟨by simp⟩

instance (keyword : Keyword) : Kind.Inside keyword := ⟨by simp⟩

instance : Kind.Inside .identifier := ⟨by simp⟩

instance : Kind.Inside .number := ⟨by simp⟩

instance : Kind.Inside .string := ⟨by simp⟩

theorem exists_first_end {others : List Occurrence}
    (finished : ∃ token ∈ others, token.kind = .endOfInput) :
    ∃ rest finish behind, others = rest ++ finish :: behind ∧
      (∀ token ∈ rest, token.kind ≠ .endOfInput) ∧ finish.kind = .endOfInput := by
  induction others with
  | nil => simp at finished
  | cons token others induction =>
      by_cases final : token.kind = .endOfInput
      · exact ⟨[], token, others, rfl, by simp, final⟩
      · have finished : ∃ token ∈ others, token.kind = .endOfInput := by
          simpa [final] using finished
        rcases induction finished with ⟨rest, finish, behind, rfl, inside, finishKind⟩
        exact ⟨token :: rest, finish, behind, rfl, by simpa using ⟨final, inside⟩,
          finishKind⟩

namespace Stream

def Finishes (stream : Stream) : Prop := ∃ token ∈ stream.rest, token.kind = .endOfInput

/-- Between the two streams the tokens `taken` were read, none of them an end of input,
and the faults `added` were noted. -/
structure Reads (before after : Stream) (taken : List Occurrence)
    (added : List ReadingFault) : Prop where
  rest : before.rest = taken ++ after.rest
  inside : ∀ token ∈ taken, token.kind ≠ .endOfInput
  faults : after.faults.toList = before.faults.toList ++ added

theorem Reads.refl (stream : Stream) : stream.Reads stream [] [] :=
  ⟨rfl, by simp, by simp⟩

theorem Reads.trans {first second third : Stream} {taken taken' : List Occurrence}
    {added added' : List ReadingFault} (left : first.Reads second taken added)
    (right : second.Reads third taken' added') :
    first.Reads third (taken ++ taken') (added ++ added') where
  rest := by rw [left.rest, right.rest, List.append_assoc]
  inside token member :=
    (List.mem_append.mp member).elim (left.inside token) (right.inside token)
  faults := by rw [right.faults, left.faults, List.append_assoc]

section Reads

variable {before after : Stream} {taken : List Occurrence} {added : List ReadingFault}

theorem Reads.length (reads : before.Reads after taken added) :
    before.rest.length = taken.length + after.rest.length := by
  rw [reads.rest, List.length_append]

theorem Reads.finishes (reads : before.Reads after taken added)
    (finishes : before.Finishes) : after.Finishes := by
  rcases finishes with ⟨token, member, final⟩
  rw [reads.rest] at member
  rcases List.mem_append.mp member with member | member
  · exact absurd final (reads.inside token member)
  · exact ⟨token, member, final⟩

end Reads

theorem Finishes.front {stream : Stream} (finishes : stream.Finishes) :
    ∃ token rest, stream.rest = token :: rest := by
  rcases finishes with ⟨token, member, -⟩
  exact List.exists_cons_of_ne_nil (List.ne_nil_of_mem member)

end Stream

namespace Reader

variable {α β : Type}

/-! ## Single steps -/

theorem bind_of_ok {first : Reader β} {second : β → Reader α} {stream after : Stream}
    {result : β}
    {final : EStateM.Result Interruption Stream α}
    (outcome : first stream = .ok result after)
    (continued : second result after = final) : (first >>= second) stream = final := by
  simp only [Bind.bind, EStateM.bind, outcome]
  exact continued

theorem of_bind_ok {first : Reader β} {second : β → Reader α} {stream after : Stream}
    {result : α} (outcome : (first >>= second) stream = .ok result after) :
    ∃ found between, first stream = .ok found between ∧
      second found between = .ok result after := by
  simp only [Bind.bind, EStateM.bind] at outcome
  cases read : first stream with
  | ok found between =>
      rw [read] at outcome
      exact ⟨found, between, rfl, outcome⟩
  | error stop between =>
      rw [read] at outcome
      cases outcome

theorem bind_of_error {first : Reader β} {second : β → Reader α} {stream after : Stream}
    {stop : Interruption} (outcome : first stream = .error stop after) :
    (first >>= second) stream = .error stop after := by
  simp only [Bind.bind, EStateM.bind, outcome]

section Steps

variable {token : Occurrence} {rest : List Occurrence} {faults : Array ReadingFault}
  {kind : Kind}

theorem next_front :
    next ⟨token :: rest, faults⟩ = .ok token ⟨token :: rest, faults⟩ := rfl

theorem follows_front :
    follows kind ⟨token :: rest, faults⟩ =
      .ok (decide (token.kind = kind)) ⟨token :: rest, faults⟩ := rfl

theorem skip_front (inside : token.kind ≠ .endOfInput) :
    skip ⟨token :: rest, faults⟩ = .ok () ⟨rest, faults⟩ := by
  apply bind_of_ok next_front
  rw [if_pos inside]
  rfl

theorem skip_end (final : token.kind = .endOfInput) :
    skip ⟨token :: rest, faults⟩ = .ok () ⟨token :: rest, faults⟩ := by
  apply bind_of_ok next_front
  rw [if_neg (not_not_intro final)]
  rfl

theorem acceptAs_taken {choose : Kind → Option β} {use : β}
    (chosen : choose token.kind = some use) (inside : choose .endOfInput = none) :
    acceptAs choose ⟨token :: rest, faults⟩ = .ok (some (use, token)) ⟨rest, faults⟩ := by
  have different : token.kind ≠ .endOfInput := fun same => by
    rw [same, inside] at chosen
    cases chosen
  apply bind_of_ok next_front
  rw [chosen]
  exact bind_of_ok (skip_front different) rfl

theorem acceptAs_refused {choose : Kind → Option β}
    (refused : ∃ token ∈ rest.head?, choose token.kind = none) :
    acceptAs choose ⟨rest, faults⟩ = .ok none ⟨rest, faults⟩ := by
  rcases refused with ⟨token, front, refused⟩
  obtain ⟨later, rfl⟩ := List.head?_eq_some_iff.mp front
  apply bind_of_ok next_front
  rw [refused]
  rfl

theorem accept_taken [inside : kind.Inside] (same : token.kind = kind) :
    accept kind ⟨token :: rest, faults⟩ = .ok (some token) ⟨rest, faults⟩ := by
  have chosen : (if token.kind = kind then some () else none) = some () := if_pos same
  exact bind_of_ok (acceptAs_taken chosen (if_neg inside.ne_end.symm)) rfl

theorem accept_refused (different : ∃ token ∈ rest.head?, token.kind ≠ kind) :
    accept kind ⟨rest, faults⟩ = .ok none ⟨rest, faults⟩ := by
  rcases different with ⟨token, front, different⟩
  exact bind_of_ok (acceptAs_refused ⟨token, front, if_neg different⟩) rfl

theorem expect_taken [kind.Inside] {expectation : Expectation}
    (same : token.kind = kind) :
    expect kind expectation ⟨token :: rest, faults⟩ = .ok token ⟨rest, faults⟩ :=
  bind_of_ok (accept_taken same) rfl

theorem resume_of_cons {later : List Occurrence} (ahead : resumption rest = token :: later) :
    resume ⟨rest, faults⟩ = .ok () ⟨token :: later, faults⟩ := by
  apply bind_of_ok rfl
  dsimp only
  rw [ahead]
  rfl

theorem resume_of_nil (behind : resumption rest = []) :
    resume ⟨rest, faults⟩ = .error .pastEnd ⟨[], faults⟩ := by
  apply bind_of_ok rfl
  dsimp only
  rw [behind]
  rfl

end Steps

/-! ## Readers that deliver or abandon -/

/-- What a reader that starts from `stream` may do before an end of input: abandon after a
fault, or deliver a result that satisfies `post` together with the tokens taken, the
faults added and the stream left over. -/
def Meets (reader : Reader α) (stream : Stream)
    (post : List Occurrence → List ReadingFault → α → Stream → Prop) : Prop :=
  stream.Finishes →
    match reader stream with
    | .ok result after =>
        ∃ taken added, stream.Reads after taken added ∧ post taken added result after
    | .error interruption after => interruption = .abandoned ∧
        ∃ taken added, stream.Reads after taken added ∧ added ≠ []

variable {stream : Stream}
  {post : List Occurrence → List ReadingFault → α → Stream → Prop}

theorem Meets.weaken {reader : Reader α}
    {weaker : List Occurrence → List ReadingFault → α → Stream → Prop}
    (meets : reader.Meets stream post)
    (implies : ∀ taken added result after, stream.Reads after taken added →
      post taken added result after → weaker taken added result after) :
    reader.Meets stream weaker := by
  intro finishes
  have meets := meets finishes
  split at meets
  · rcases meets with ⟨taken, added, reads, holds⟩
    exact ⟨taken, added, reads, implies _ _ _ _ reads holds⟩
  · exact meets

/-- What a reader is known to meet in two ways it meets in both at once, because the
streams tell which tokens were taken and which faults were added. -/
theorem Meets.and {reader : Reader α}
    {other : List Occurrence → List ReadingFault → α → Stream → Prop}
    (meets : reader.Meets stream post) (meets' : reader.Meets stream other) :
    reader.Meets stream fun taken added result after =>
      post taken added result after ∧ other taken added result after := by
  intro finishes
  have meets := meets finishes
  have meets' := meets' finishes
  cases outcome : reader stream with
  | ok result after =>
      rw [outcome] at meets meets'
      obtain ⟨taken, added, reads, holds⟩ := meets
      obtain ⟨taken', added', reads', holds'⟩ := meets'
      obtain rfl : taken = taken' :=
        List.append_cancel_right (reads.rest.symm.trans reads'.rest)
      obtain rfl : added = added' :=
        List.append_cancel_left (reads.faults.symm.trans reads'.faults)
      exact ⟨taken, added, reads, holds, holds'⟩
  | error stop after =>
      rw [outcome] at meets
      exact meets

theorem meets_pure {result : α} (holds : post [] [] result stream) :
    (pure result : Reader α).Meets stream post :=
  fun _ => ⟨[], [], Stream.Reads.refl stream, holds⟩

theorem Meets.bind {first : Reader β} {second : β → Reader α}
    {middle : List Occurrence → List ReadingFault → β → Stream → Prop}
    (firstMeets : first.Meets stream middle)
    (secondMeets : ∀ taken added result after, stream.Reads after taken added →
      middle taken added result after →
      (second result).Meets after fun taken' added' => post (taken ++ taken')
      (added ++ added')) :
    (first >>= second).Meets stream post := by
  intro finishes
  have firstMeets := firstMeets finishes
  simp only [Bind.bind, EStateM.bind]
  cases outcome : first stream with
  | ok result after =>
      rw [outcome] at firstMeets
      rcases firstMeets with ⟨taken, added, reads, holds⟩
      have next := secondMeets taken added result after reads holds (reads.finishes finishes)
      dsimp only
      cases further : second result after with
      | ok result' after' =>
          rw [further] at next
          rcases next with ⟨taken', added', reads', holds'⟩
          exact ⟨_, _, reads.trans reads', holds'⟩
      | error interruption after' =>
          rw [further] at next
          rcases next with ⟨abandoned, taken', added', reads', noted⟩
          exact ⟨abandoned, _, _, reads.trans reads', by simp [noted]⟩
  | error interruption after =>
      rw [outcome] at firstMeets
      exact firstMeets

theorem Meets.map {reader : Reader β} {transform : β → α}
    (meets : reader.Meets stream fun taken added result =>
      post taken added (transform result)) :
    (transform <$> reader).Meets stream post := by
  intro finishes
  have meets := meets finishes
  simp only [Functor.map, EStateM.map]
  cases outcome : reader stream with
  | ok result after => rwa [outcome] at meets
  | error stop after => rwa [outcome] at meets

/-! ## Readers that always deliver -/

/-- Before an end of input the reader delivers a result, with `post` for the tokens taken
and the faults added. -/
def Delivers (reader : Reader α) (stream : Stream)
    (post : List Occurrence → List ReadingFault → α → Stream → Prop) : Prop :=
  stream.Finishes →
    ∃ result after, reader stream = .ok result after ∧
      ∃ taken added, stream.Reads after taken added ∧ post taken added result after

theorem Delivers.meets {reader : Reader α} (delivers : reader.Delivers stream post) :
    reader.Meets stream post := by
  intro finishes
  rcases delivers finishes with ⟨result, after, outcome, holds⟩
  rwa [outcome]

theorem delivers_pure {result : α} (holds : post [] [] result stream) :
    (pure result : Reader α).Delivers stream post :=
  fun _ => ⟨result, stream, rfl, [], [], Stream.Reads.refl stream, holds⟩

theorem Delivers.bind {first : Reader β} {second : β → Reader α}
    {middle : List Occurrence → List ReadingFault → β → Stream → Prop}
    (firstDelivers : first.Delivers stream middle)
    (secondDelivers : ∀ taken added result after, stream.Reads after taken added →
      middle taken added result after →
      (second result).Delivers after fun taken' added' =>
        post (taken ++ taken') (added ++ added')) :
    (first >>= second).Delivers stream post := by
  intro finishes
  rcases firstDelivers finishes with ⟨result, after, outcome, taken, added, reads, holds⟩
  rcases secondDelivers taken added result after reads holds (reads.finishes finishes) with
      ⟨result', after', outcome', taken', added', reads', holds'⟩
  exact ⟨result', after', bind_of_ok outcome outcome', _, _, reads.trans reads', holds'⟩

/-! ## Rules for single steps

Each rule says what a reader meets that begins with the step. -/

section Steps

variable {second : β → Reader α}

theorem meets_of_next {second : Occurrence → Reader α}
    (meets : ∀ word ∈ stream.rest.head?, (second word).Meets stream post) :
    (next >>= second).Meets stream post := by
  intro finishes
  obtain ⟨word, rest, shape⟩ := finishes.front
  have front : next stream = .ok word stream := by rw [next, shape]
  rw [bind_of_ok front rfl]
  exact meets word (by simp [shape]) finishes

theorem meets_of_follows {kind : Kind} {second : Bool → Reader α}
    (meets : ∀ word ∈ stream.rest.head?,
      (second (decide (word.kind = kind))).Meets stream post) :
    (follows kind >>= second).Meets stream post := by
  rw [follows, bind_assoc]
  exact meets_of_next fun word front => by simpa only [pure_bind] using meets word front

theorem meets_of_skip {second : Unit → Reader α} {word : Occurrence}
    (front : word ∈ stream.rest.head?) (inside : word.kind ≠ .endOfInput)
    (meets : ∀ after, stream.Reads after [word] [] →
      (second ()).Meets after fun taken => post (word :: taken)) :
    (skip >>= second).Meets stream post := by
  obtain ⟨rest, faults⟩ := stream
  obtain ⟨later, rfl⟩ := List.head?_eq_some_iff.mp front
  have step : skip.Meets ⟨word :: later, faults⟩ fun taken added _ _ =>
      taken = [word] ∧ added = [] := by
    intro _
    rw [skip_front inside]
    exact ⟨[word], [], ⟨rfl, by simpa using inside, by simp⟩, rfl, rfl⟩
  apply step.bind
  rintro taken added result after reads ⟨rfl, rfl⟩
  exact meets after reads

theorem meets_of_complain {token : Occurrence} {cause : ReadingCause}
    {second : Unit → Reader α}
    (meets : ∀ after, stream.Reads after [] [⟨token, cause⟩] →
      (second ()).Meets after fun taken added => post taken (⟨token, cause⟩ :: added)) :
    (complain token cause >>= second).Meets stream post := by
  have step : (complain token cause).Meets stream fun taken added _ _ =>
      taken = [] ∧ added = [⟨token, cause⟩] :=
    fun _ => ⟨[], [⟨token, cause⟩], ⟨rfl, by simp, by simp⟩, rfl, rfl⟩
  apply step.bind
  rintro taken added result after reads ⟨rfl, rfl⟩
  exact meets after reads

theorem meets_missing {expectation : Expectation} :
    (missing expectation : Reader α).Meets stream post := by
  refine meets_of_next fun word _ _ => ⟨rfl, [], [⟨word, .expected expectation⟩], ?_⟩
  exact ⟨⟨rfl, by simp, by simp⟩, by simp⟩

theorem meets_of_acceptAs {choose : Kind → Option β}
    {second : Option (β × Occurrence) → Reader α} (inside : choose .endOfInput = none)
    (accepted : ∀ token use after, stream.Reads after [token] [] →
      choose token.kind = some use →
      (second (some (use, token))).Meets after fun taken => post (token :: taken))
    (refused : (∃ token ∈ stream.rest.head?, choose token.kind = none) →
      (second none).Meets stream post) :
    (acceptAs choose >>= second).Meets stream post := by
  rw [acceptAs, bind_assoc]
  refine meets_of_next fun word front => ?_
  cases chosen : choose word.kind with
  | none =>
      simp only [pure_bind]
      exact refused ⟨word, front, chosen⟩
  | some use =>
      simp only [bind_assoc, pure_bind]
      have different : word.kind ≠ .endOfInput := fun same => by
        rw [same, inside] at chosen
        cases chosen
      exact meets_of_skip front different fun after reads =>
        accepted word use after reads chosen

theorem meets_of_accept {kind : Kind} [inside : kind.Inside]
    {second : Option Occurrence → Reader α}
    (accepted : ∀ token after, stream.Reads after [token] [] → token.kind = kind →
      (second (some token)).Meets after fun taken => post (token :: taken))
    (refused : (∃ token ∈ stream.rest.head?, token.kind ≠ kind) →
      (second none).Meets stream post) :
    (accept kind >>= second).Meets stream post := by
  have unfolded : (accept kind >>= second) =
      (acceptAs (fun other => if other = kind then some () else none) >>= fun found =>
        second (found.map (·.2))) := by
    simp only [accept, bind_assoc, pure_bind]
  rw [unfolded]
  refine meets_of_acceptAs (if_neg inside.ne_end.symm) ?_ ?_
  · intro token use after reads chosen
    exact accepted token after reads (by simpa using chosen)
  · rintro ⟨token, front, none⟩
    exact refused ⟨token, front, by simpa using none⟩

theorem meets_of_expect {kind : Kind} [kind.Inside] {expectation : Expectation}
    {second : Occurrence → Reader α}
    (meets : ∀ token after, stream.Reads after [token] [] → token.kind = kind →
      (second token).Meets after fun taken => post (token :: taken)) :
    (expect kind expectation >>= second).Meets stream post := by
  rw [expect, bind_assoc]
  refine meets_of_accept (fun token after reads kindOf => ?_) fun _ => ?_
  · simpa only [pure_bind] using meets token after reads kindOf
  · have step : (missing expectation : Reader Occurrence).Meets stream fun _ _ _ _ =>
      False :=
      meets_missing
    exact step.bind fun _ _ _ _ _ impossible => impossible.elim

end Steps

end Reader

end LoxLang
