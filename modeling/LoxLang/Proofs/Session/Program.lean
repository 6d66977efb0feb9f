import LoxLang.Proofs.Binding.Soundness
import LoxLang.Proofs.Reading.Acceptance
import LoxLang.Proofs.Reading.StatementWords
import LoxLang.Proofs.Token.Listing
import LoxLang.Session.Basic

/-! # Programs without complaints

What a session runs was derived from the words of its text and has no faults. The
references of a text, whatever faults it has, stand at places that no earlier text has
taken, so recording their distances leaves what is known about earlier references alone,
and settles a program without faults.
-/

namespace LoxLang

open Grammar

def Program.distances (program : Program) : Distances :=
  Distances.empty.recordAll program.findings

/-! ## Places -/

def wordsAt (place : Nat) (words : List Occurrence) : Nat :=
  words.countP (·.place = place)

namespace Token

theorem placedFrom_append (place : Nat) (first second : List Token) :
    placedFrom place (first ++ second) =
      placedFrom place first ++ placedFrom (place + first.length) second := by
  induction first generalizing place with
  | nil => rfl
  | cons token rest induction =>
      simp only [List.cons_append, placedFrom, induction, List.length_cons,
        ← Nat.add_assoc, Nat.add_right_comm]

theorem of_mem_placedFrom {place : Nat} {tokens : List Token} {occurrence : Occurrence}
    (member : occurrence ∈ placedFrom place tokens) : occurrence.toToken ∈ tokens := by
  induction tokens generalizing place with
  | nil => simp [placedFrom] at member
  | cons token rest induction =>
      rcases List.mem_cons.mp member with rfl | member
      · simp
      · exact List.mem_cons_of_mem _ (induction member)

theorem wordsAt_placedFrom (place other : Nat) (tokens : List Token) :
    wordsAt other (placedFrom place tokens) =
      if place ≤ other ∧ other < place + tokens.length then 1 else 0 := by
  induction tokens generalizing place with
  | nil =>
      rw [placedFrom, wordsAt, List.countP_nil, List.length_nil, if_neg (by omega)]
  | cons token rest induction =>
      simp only [wordsAt] at induction ⊢
      simp only [placedFrom, List.countP_cons, induction, List.length_cons,
        decide_eq_true_eq]
      by_cases here : place = other
      · rw [if_neg (by omega), if_pos here, if_pos (by omega)]
      · by_cases later : place + 1 ≤ other ∧ other < place + 1 + rest.length
        · rw [if_pos later, if_neg here, if_pos (by omega)]
        · rw [if_neg later, if_neg here, if_neg (by omega)]

end Token

theorem Reference.Drawn.referencesAt_le {references : List Reference}
    {tokens : List Occurrence} (drawn : Drawn references tokens) (place : Nat) :
    referencesAt place references ≤ wordsAt place tokens := by
  have counted := drawn.contained.countP_le (·.place = place)
  rwa [List.countP_map] at counted

theorem Parsed.drawn_upTo {tokens : List Occurrence} {finish : Occurrence}
    (inside : ∀ token ∈ tokens, token.kind ≠ .endOfInput)
    (final : finish.kind = .endOfInput) :
    Mention.Drawn (Stmt.mentionsOfAll (upTo finish tokens).statements)
      (Stmt.InOrderAll (upTo finish tokens).statements) tokens := by
  have room : Reader.Room ⟨tokens ++ [finish], #[]⟩ 19 (32 * tokens.length + 51) :=
    ⟨by simp only [List.length_append, List.length_cons, List.length_nil]; omega⟩
  have meets := (Reader.statementsDrawn _).declarations .wholeInput _ room
    ⟨finish, by simp, final⟩
  rw [declarations_upTo inside final (by omega)] at meets
  obtain ⟨taken, added, reads, drawn⟩ := meets
  obtain rfl : tokens = taken := List.append_cancel_right reads.rest
  exact drawn

/-! ## What is recorded -/

namespace Distances

variable (distances : Distances)

theorem get?_record (place distance other : Nat) :
    (distances.record place distance).get? other =
      if place = other then some distance else distances.get? other := by
  simp only [get?, record, Array.getElem?_setIfInBounds, Array.size_append,
    Array.size_replicate]
  by_cases same : place = other
  · subst same
    have inside : place < distances.entries.size +
        (place + 1 - distances.entries.size) := by omega
    simp [inside]
  · rw [if_neg same, if_neg same, Array.getElem?_append]
    split
    · rfl
    case isFalse outside =>
      rw [Array.getElem?_replicate, Array.getElem?_eq_none (by omega)]
      split <;> rfl

theorem recordAll_append (first second : List Finding) :
    distances.recordAll (first ++ second) =
      (distances.recordAll first).recordAll second := by
  rw [recordAll, List.foldl_append]
  rfl

theorem get?_recordAll_of_unbound {findings : List Finding} {place : Nat}
    (unbound : boundAt place findings = 0) :
    (distances.recordAll findings).get? place = distances.get? place := by
  induction findings generalizing distances with
  | nil => rfl
  | cons finding rest induction =>
      rw [← List.singleton_append, boundAt_append] at unbound
      rw [← List.singleton_append, recordAll_append, induction _ (by omega)]
      cases finding with
      | fault => rfl
      | bound reference distance =>
          have elsewhere : reference.place ≠ place := by
            rintro rfl
            have := boundAt_pos (List.mem_singleton_self
                (Finding.bound reference distance))
            omega
          exact (get?_record _ _ _ _).trans (if_neg elsewhere)

theorem get?_recordAll_of_bound {findings : List Finding} {reference : Occurrence}
    {distance : Nat} (bound : .bound reference distance ∈ findings)
    (once : boundAt reference.place findings ≤ 1) :
    (distances.recordAll findings).get? reference.place = some distance := by
  rcases List.append_of_mem bound with ⟨earlier, later, rfl⟩
  rw [boundAt_append, ← List.singleton_append, boundAt_append] at once
  have here := boundAt_pos (List.mem_singleton_self (Finding.bound reference distance))
  rw [recordAll_append, ← List.singleton_append, recordAll_append,
    get?_recordAll_of_unbound _ (by omega)]
  exact (get?_record _ _ _ _).trans (if_pos rfl)

end Distances

/-! ## Programs -/

namespace Program

structure Clean (program : Program) : Prop where
  lexical : program.lexicalFaults = []
  reading : program.readingFaults = []
  binding : ∀ fault, .fault fault ∉ program.findings

theorem faults_eq_nil {findings : List Finding} :
    Finding.faults findings = [] ↔ ∀ fault, .fault fault ∉ findings := by
  rw [Finding.faults, List.filterMap_eq_nil_iff]
  constructor
  · intro none fault member
    exact nomatch none _ member
  · intro none finding member
    cases finding with
    | bound => rfl
    | fault fault => exact absurd member (none fault)

theorem byLine_isEmpty (diagnostics : List Diagnostic) :
    (Diagnostic.byLine diagnostics).isEmpty = diagnostics.isEmpty := by
  rw [Bool.eq_iff_iff, List.isEmpty_iff_length_eq_zero, List.isEmpty_iff_length_eq_zero,
    Diagnostic.byLine, List.length_mergeSort]

theorem complaints_isEmpty_iff (program : Program) :
    program.complaints.isEmpty ↔ program.Clean := by
  have parts : program.diagnostics.isEmpty ↔
      program.lexicalFaults = [] ∧ program.readingFaults = [] := by
    rw [diagnostics, byLine_isEmpty]
    simp
  have bindings : program.bindingDiagnostics.isEmpty ↔
      ∀ fault, .fault fault ∉ program.findings := by
    rw [bindingDiagnostics, byLine_isEmpty, ← faults_eq_nil]
    simp
  rw [complaints]
  split
  case isTrue empty =>
      rw [bindings]
      exact ⟨fun binding => ⟨(parts.mp empty).1, (parts.mp empty).2, binding⟩,
        fun clean => clean.3⟩
  case isFalse nonempty =>
      exact ⟨fun empty => absurd empty nonempty,
        fun clean => absurd (parts.mpr ⟨clean.1, clean.2⟩) nonempty⟩

def endOfSource (firstPlace : Nat) (source : String) : Occurrence :=
  ⟨.endOfInput (1 + newlinesOfSource source), firstPlace + (wordsOfSource source).length⟩

def parsedOf (firstPlace : Nat) (source : String) : Parsed :=
  Parsed.upTo (endOfSource firstPlace source)
    (Token.placedFrom firstPlace (wordsOfSource source))

variable (firstPlace : Nat) (source : String)

theorem placed_tokens :
    Token.placedFrom firstPlace (Listing.ofSource source).tokens =
      Token.placedFrom firstPlace (wordsOfSource source) ++
        [endOfSource firstPlace source] := by
  rw [Listing.tokens_ofSource, Token.placedFrom_append]
  rfl

theorem words_inside :
    ∀ token ∈ Token.placedFrom firstPlace (wordsOfSource source),
      token.kind ≠ .endOfInput := fun _ member =>
  (Listing.spelled_of_mem_wordsOfSource source _ (Token.of_mem_placedFrom member)).1

theorem ofTokens_tokens :
    Parsed.ofTokens (Token.placedFrom firstPlace (Listing.ofSource source).tokens) =
      .ok (parsedOf firstPlace source) := by
  rw [placed_tokens]
  exact Parsed.ofTokens_upTo (words_inside firstPlace source) rfl []

theorem ofSource_eq : ofSource firstPlace source =
    ⟨(parsedOf firstPlace source).statements, (Listing.ofSource source).faults,
      (parsedOf firstPlace source).faults, (wordsOfSource source).length⟩ := by
  simp only [ofSource, Parsed.ofTokens?, ofTokens_tokens, Except.toOption,
    Option.getD_some]
  simp [Listing.tokens_ofSource]

variable {firstPlace source}

theorem derivable (clean : (ofSource firstPlace source).Clean) :
    Statement .nearestIf .declarations (Token.placedFrom firstPlace
      (wordsOfSource source)) (ofSource firstPlace source).statements := by
  rcases clean with ⟨-, reading, -⟩
  rw [ofSource_eq] at reading ⊢
  exact Parsed.derivable_of_upTo (words_inside firstPlace source) rfl reading

theorem isRegular (clean : (ofSource firstPlace source).Clean) :
    Stmt.RegularAll (ofSource firstPlace source).statements :=
  (derivable clean).isRegular fun _ member =>
    (Listing.spelled_of_mem_wordsOfSource source _ (Token.of_mem_placedFrom member)).2

theorem length_eq :
    (ofSource firstPlace source).length = (wordsOfSource source).length := by
  rw [ofSource_eq]

variable (firstPlace source)

theorem drawn : Mention.Drawn
    (Stmt.mentionsOfAll (ofSource firstPlace source).statements)
    (Stmt.InOrderAll (ofSource firstPlace source).statements)
    (Token.placedFrom firstPlace (wordsOfSource source)) := by
  rw [ofSource_eq]
  exact Parsed.drawn_upTo (words_inside firstPlace source) rfl

theorem drawn_references : Reference.Drawn
    (Stmt.referencesOfAll (ofSource firstPlace source).statements)
    (Token.placedFrom firstPlace (wordsOfSource source)) := by
  rw [← Stmt.reference?_mentionsOfAll]
  exact (drawn firstPlace source).references

theorem referencesAt_le (place : Nat) :
    referencesAt place (Stmt.referencesOfAll (ofSource firstPlace source).statements) ≤
      if firstPlace ≤ place ∧ place < firstPlace + (ofSource firstPlace source).length then 1
      else 0 := by
  have drawn := (drawn_references firstPlace source).referencesAt_le place
  rwa [Token.wordsAt_placedFrom, ← length_eq] at drawn

theorem boundAt_findings (place : Nat) :
    boundAt place (ofSource firstPlace source).findings ≤
      if firstPlace ≤ place ∧ place < firstPlace + (ofSource firstPlace source).length then 1
      else 0 :=
  Nat.le_trans (Stmt.boundAmong_all .topLevel [] _ place)
    (referencesAt_le firstPlace source place)

variable {firstPlace source}

theorem place_of_mem_references {reference : Reference} (member : reference ∈
      Stmt.referencesOfAll (ofSource firstPlace source).statements) :
    firstPlace ≤ reference.occurrence.place ∧
      reference.occurrence.place < firstPlace + (ofSource firstPlace source).length := by
  have counted := referencesAt_le firstPlace source reference.occurrence.place
  have positive := referencesAt_pos member
  split at counted
  case isTrue inside => exact inside
  case isFalse => omega

theorem get?_recordAll_of_outside (distances : Distances) {place : Nat}
    (outside : ¬(firstPlace ≤ place ∧
      place < firstPlace + (ofSource firstPlace source).length)) :
    (distances.recordAll (ofSource firstPlace source).findings).get? place =
      distances.get? place := by
  have bound := boundAt_findings firstPlace source place
  rw [if_neg outside] at bound
  exact Distances.get?_recordAll_of_unbound _ (Nat.le_zero.mp bound)

end Program

/-! ## Settlement -/

namespace Settlement

variable {settlement : Settlement} {source : String}

def Fresh (settlement : Settlement) : Prop :=
  ∀ place, settlement.limit ≤ place → settlement.distances.get? place = none

def after (settlement : Settlement) (program : Program) : Settlement where
  distances := settlement.distances.recordAll program.findings
  limit := settlement.limit + program.length

theorem extends_after (settlement : Settlement) (source : String) :
    settlement.Extends (settlement.after (.ofSource settlement.limit source)) where
  limit := Nat.le_add_right _ _
  distances _ earlier :=
    Program.get?_recordAll_of_outside _ fun inside => Nat.not_le.mpr earlier inside.1

theorem Fresh.after (fresh : settlement.Fresh) (source : String) :
    (settlement.after (.ofSource settlement.limit source)).Fresh := by
  intro place later
  have outside := Program.get?_recordAll_of_outside settlement.distances
    fun inside => Nat.not_lt.mpr later inside.2
  exact outside.trans (fresh place (Nat.le_trans (Nat.le_add_right _ _) later))

theorem checked_after (fresh : settlement.Fresh)
    (clean : (Program.ofSource settlement.limit source).Clean) :
    Checked (settlement.after (.ofSource settlement.limit source))
      (Program.ofSource settlement.limit source).findings
      (Stmt.referencesOfAll (Program.ofSource settlement.limit source).statements) := by
  refine ⟨clean.binding, ?_, ?_,
    fun reference member => (Program.place_of_mem_references member).2, ?_⟩
  · intro reference distance member
    refine Distances.get?_recordAll_of_bound _ member ?_
    have bound := Program.boundAt_findings settlement.limit source reference.place
    split at bound <;> omega
  · intro reference member unbound
    have never : boundAt reference.occurrence.place
        (Program.ofSource settlement.limit source).findings = 0 := by
      rw [boundAt, List.countP_eq_zero]
      intro finding found
      cases finding with
      | fault => simp
      | bound other distance => simpa using unbound other distance found
    exact (Distances.get?_recordAll_of_unbound _ never).trans
      (fresh _ (Program.place_of_mem_references member).1)
  · intro place
    have counted := Program.referencesAt_le settlement.limit source place
    split at counted <;> omega

/-- A program without complaints is settled once it has been accepted. -/
theorem settledAll_after (fresh : settlement.Fresh)
    (clean : (Program.ofSource settlement.limit source).Clean) :
    Stmt.SettledAll (settlement.after (.ofSource settlement.limit source)) []
      (Program.ofSource settlement.limit source).statements :=
  Stmt.settledAll_of_checked (Scopes.suits_none []) Scopes.complete_nil _
    (Program.isRegular clean) (checked_after fresh clean)

end Settlement

/-! ## Histories -/

namespace Session

def after (session : Session) (history : List (Budget × String)) : Session :=
  history.foldl (fun session (budget, source) => (session.run budget source).1) session

variable (session : Session) (budget : Budget) (source : String)

def settlement (session : Session) : Settlement :=
  ⟨session.machine.distances, session.nextPlace⟩

def conclude (session : Session) : EStateM.Result Stop Machine Unit → Session × Outcome
  | .ok _ machine =>
    ({ session with machine := machine.takePrinted.2 },
      ⟨.completed, machine.takePrinted.1⟩)
  | .error stop machine =>
    ({ session with machine := machine.takePrinted.2, hadRuntimeError := true },
      ⟨.stopped stop, machine.takePrinted.1⟩)

theorem run_of_clean (clean : (Program.ofSource session.nextPlace source).Clean) :
    session.run budget source =
      (session.accept (.ofSource session.nextPlace source)).conclude
        (Action.runProgram budget (Program.ofSource session.nextPlace source).statements
          (session.accept (.ofSource session.nextPlace source)).machine) := by
  rw [← Program.complaints_isEmpty_iff] at clean
  simp only [run, clean, if_true, perform]
  cases Action.runProgram budget _ _ <;> rfl

theorem run_of_complaints (unclean : ¬(Program.ofSource session.nextPlace source).Clean) :
    session.run budget source =
      (session.reject (.ofSource session.nextPlace source),
        ⟨.rejected (Program.ofSource session.nextPlace source).complaints, []⟩) := by
  rw [← Program.complaints_isEmpty_iff] at unclean
  simp only [run, unclean]
  rfl

def placeAfter (session : Session) (source : String) : Nat :=
  session.nextPlace + (Program.ofSource session.nextPlace source).length

theorem nextPlace_run :
    (session.run budget source).1.nextPlace = session.placeAfter source := by
  by_cases clean : (Program.ofSource session.nextPlace source).Clean
  · rw [run_of_clean _ _ _ clean]
    cases Action.runProgram budget _ _ <;> rfl
  · rw [run_of_complaints _ _ _ clean]
    rfl

end Session

end LoxLang
