import LoxLang.Proofs.Reading.Moves
import LoxLang.Proofs.Session.Program

/-! # Programs on further lines

Whether there are complaints about a text does not depend on where it stands. A text that
goes on in the next line is a program of two parts, the second of which has its words
moved down.
-/

namespace LoxLang

open Grammar

/-! ## Moving words -/

namespace Occurrence

def lowerFrom (start lines : Nat) (word : Occurrence) : Occurrence :=
  if start ≤ word.place then { word with line := word.line + lines } else word

def recount (start start' : Nat) (word : Occurrence) : Occurrence :=
  { word with place := word.place - start + start' }

variable {start lines : Nat}

theorem sameWords_lowerFrom : SameWords (lowerFrom start lines) := by
  constructor <;> intro word <;> rw [lowerFrom] <;> split <;> rfl

theorem sameWords_recount (start start' : Nat) : SameWords (recount start start') :=
  ⟨fun _ => rfl, fun _ => rfl, fun _ => rfl⟩

theorem place_lowerFrom (word : Occurrence) :
    (word.lowerFrom start lines).place = word.place := by
  rw [lowerFrom]
  split <;> rfl

theorem lowerFrom_of_lt {word : Occurrence} (earlier : word.place < start) :
    word.lowerFrom start lines = word := if_neg (Nat.not_le.mpr earlier)

theorem line_lowerFrom (word : Occurrence) :
    (word.lowerFrom start lines).line =
      if start ≤ word.place then word.line + lines else word.line := by
  rw [lowerFrom]
  split <;> rfl

end Occurrence

namespace Token

open Occurrence

theorem place_of_mem_placedFrom {place : Nat} {tokens : List Token} {word : Occurrence}
    (member : word ∈ placedFrom place tokens) :
    place ≤ word.place ∧ word.place < place + tokens.length := by
  have positive : 0 < wordsAt word.place (placedFrom place tokens) :=
    List.countP_pos_iff.mpr ⟨word, member, by simp⟩
  rw [wordsAt_placedFrom] at positive
  split at positive
  case isTrue inside => exact inside
  case isFalse => exact absurd positive (Nat.lt_irrefl _)

theorem lowerFrom_placedFrom_of_le {place start : Nat} {tokens : List Token}
    (earlier : place + tokens.length ≤ start) (lines : Nat) :
    (placedFrom place tokens).map (lowerFrom start lines) = placedFrom place tokens := by
  have fixed : ∀ word ∈ placedFrom place tokens, word.lowerFrom start lines = word :=
    fun word member => lowerFrom_of_lt
      (Nat.lt_of_lt_of_le (place_of_mem_placedFrom member).2 earlier)
  rw [List.map_congr_left fixed, List.map_id']

theorem lowerFrom_placedFrom {place start : Nat} (later : start ≤ place) (lines : Nat)
    (tokens : List Token) :
    (placedFrom place tokens).map (lowerFrom start lines) =
      placedFrom place (tokens.map (Token.movedBy lines)) := by
  induction tokens generalizing place with
  | nil => rfl
  | cons token rest induction =>
      rw [placedFrom, List.map_cons, induction (Nat.le_succ_of_le later), List.map_cons,
        placedFrom, lowerFrom, if_pos later]
      rfl

theorem recount_placedFrom (start start' : Nat) (tokens : List Token) :
    (placedFrom start tokens).map (recount start start') = placedFrom start' tokens := by
  suffices counted : ∀ offset,
      (placedFrom (start + offset) tokens).map (recount start start') =
      placedFrom (start' + offset) tokens from counted 0
  induction tokens with
  | nil => exact fun _ => rfl
  | cons token rest induction =>
      intro offset
      have moved : start + offset - start + start' = start' + offset := by omega
      rw [placedFrom, List.map_cons, Nat.add_assoc, induction, placedFrom, recount, moved,
        Nat.add_assoc]

end Token

/-! ## Programs -/

theorem Parsed.upTo_map {move : Occurrence → Occurrence} (same : SameKinds move)
    {tokens : List Occurrence} {finish : Occurrence}
    (inside : ∀ token ∈ tokens, token.kind ≠ .endOfInput)
    (final : finish.kind = .endOfInput) :
    upTo (move finish) (tokens.map move) =
      ⟨Stmt.mapAll move (upTo finish tokens).statements,
        (upTo finish tokens).faults.map (ReadingFault.map move)⟩ := by
  have inside' : ∀ token ∈ tokens.map move, token.kind ≠ .endOfInput := by
    simpa only [List.forall_mem_map, same.kind] using inside
  have moved := ofTokens_map same (tokens ++ [finish])
  rw [List.map_append, List.map_singleton, ofTokens_upTo inside final,
    ofTokens_upTo inside' ((same.kind finish).trans final)] at moved
  exact Except.ok.inj moved

namespace Program

variable {place place' : Nat} {source source' : String}

/-- Other words of the same kinds are derivable too, with themselves in the tree. -/
theorem derivable_map (clean : (ofSource place source).Clean)
    {move : Occurrence → Occurrence} (same : SameKinds move) :
    Statement .nearestIf .declarations
      ((Token.placedFrom place (wordsOfSource source)).map move)
      (Stmt.mapAll move (ofSource place source).statements) := by
  have inside : ∀ token ∈ (Token.placedFrom place (wordsOfSource source)).map move,
      token.kind ≠ .endOfInput := by
    simpa only [List.forall_mem_map, same.kind] using words_inside place source
  have final : (endOfSource place source).kind = .endOfInput := rfl
  have reading := clean.reading
  have moved := Parsed.upTo_map same (words_inside place source) final
  rw [ofSource_eq] at reading ⊢
  have derivation :=
    Parsed.derivable_of_upTo inside ((same.kind (endOfSource place source)).trans final)
  rw [moved] at derivation
  exact derivation (List.map_eq_nil_iff.mpr reading)

theorem of_derivable {trees : List Stmt} (derivation : Statement .nearestIf .declarations
      (Token.placedFrom place (wordsOfSource source)) trees) :
    (ofSource place source).statements = trees ∧
      (ofSource place source).readingFaults = [] := by
  have parsed : parsedOf place source = ⟨trees, []⟩ :=
    Parsed.upTo_of_derivable rfl derivation
  rw [ofSource_eq, parsed]
  exact ⟨rfl, rfl⟩

theorem Clean.move {move : Occurrence → Occurrence}
    (clean : (ofSource place source).Clean) (same : SameWords move)
    (lexical : (Listing.ofSource source').faults = [])
    (words : (Token.placedFrom place (wordsOfSource source)).map move =
      Token.placedFrom place' (wordsOfSource source')) :
    (ofSource place' source').Clean ∧
      (ofSource place' source').statements =
        Stmt.mapAll move (ofSource place source).statements := by
  have derivation := derivable_map clean same.sameKinds
  rw [words] at derivation
  rcases of_derivable derivation with ⟨statements, reading⟩
  refine ⟨⟨lexical, reading, ?_⟩, statements⟩
  rw [findings, statements]
  change ∀ fault, .fault fault ∉ Stmt.findingsOfAll _ _ (Stmt.mapAll move _)
  rw [Stmt.findings_mapAll same, Finding.faultless_map]
  exact clean.binding

theorem Clean.at (clean : (ofSource place source).Clean) (place' : Nat) :
    (ofSource place' source).Clean :=
  (clean.move (Occurrence.sameWords_recount place place') clean.lexical
    (Token.recount_placedFrom _ _ _)).1

theorem Clean.lower {start : Nat} (clean : (ofSource place source).Clean)
    (earlier : place + (ofSource place source).length ≤ start) (lines : Nat) :
    Stmt.mapAll (Occurrence.lowerFrom start lines) (ofSource place source).statements =
      (ofSource place source).statements := by
  rw [length_eq] at earlier
  exact (clean.move Occurrence.sameWords_lowerFrom clean.lexical
    (Token.lowerFrom_placedFrom_of_le earlier lines)).2.symm

end Program

def IsClean (source : String) : Prop := (Program.ofSource 0 source).complaints = []

theorem IsClean.clean {source : String} (isClean : IsClean source) (place : Nat) :
    (Program.ofSource place source).Clean := by
  have clean := (Program.complaints_isEmpty_iff _).mp (List.isEmpty_iff.mpr isClean)
  exact clean.at place

/-! ## Two texts in one -/

structure Program.IsJoint (first second joint : Program)
    (move : Occurrence → Occurrence) : Prop where
  clean : joint.Clean
  statements : joint.statements = first.statements ++ Stmt.mapAll move second.statements
  findings : joint.findings = first.findings ++ second.findings.map (Finding.map move)
  length : joint.length = first.length + second.length

theorem Stmt.findingsOfAll_topLevel_append (surroundings : Surroundings)
    (first second : List Stmt) :
    Stmt.findingsOfAll surroundings [] (first ++ second) =
      Stmt.findingsOfAll surroundings [] first ++
        Stmt.findingsOfAll surroundings [] second := by
  induction first with
  | nil => rfl
  | cons statement rest induction =>
      rw [List.cons_append, Stmt.findingsOfAll, Stmt.findingsOfAll,
        Scopes.scopesAfter_nil, induction, List.append_assoc]

namespace Program

variable {place : Nat} {first second : String}

theorem isJoint_ofLines (firstClean : (ofSource place first).Clean)
    (secondClean : (ofSource (place + (ofSource place first).length) second).Clean) :
    IsJoint (ofSource place first)
      (ofSource (place + (ofSource place first).length) second)
      (ofSource place (first ++ "\n" ++ second))
      (Occurrence.lowerFrom (place + (ofSource place first).length)
        (newlinesOfSource first + 1)) := by
  have closed : (Listing.ofSource first).Closed := .of_faultless firstClean.lexical
  have same : SameWords (Occurrence.lowerFrom (place + (ofSource place first).length)
      (newlinesOfSource first + 1)) := Occurrence.sameWords_lowerFrom
  have derivation :=
    (derivable firstClean).append (derivable_map secondClean same.sameKinds)
  rw [Token.lowerFrom_placedFrom (Nat.le_refl _), length_eq, ← Token.placedFrom_append,
    ← Listing.wordsOfSource_ofLines closed, ← length_eq] at derivation
  rcases of_derivable derivation with ⟨statements, reading⟩
  have findings : (ofSource place (first ++ "\n" ++ second)).findings =
      (ofSource place first).findings ++
        (ofSource (place + (ofSource place first).length) second).findings.map
          (Finding.map (Occurrence.lowerFrom (place + (ofSource place first).length)
            (newlinesOfSource first + 1))) := by
    rw [Program.findings, statements]
    exact (Stmt.findingsOfAll_topLevel_append _ _ _).trans
      (congrArg _ (Stmt.findings_mapAll same _ _ _))
  refine ⟨⟨?_, reading, ?_⟩, statements, findings, ?_⟩
  · have faults := Listing.faults_ofLines closed second
    have firstNone : (Listing.ofSource first).faults = [] := firstClean.lexical
    have secondNone : (Listing.ofSource second).faults = [] := secondClean.lexical
    rw [firstNone, secondNone] at faults
    exact faults
  · intro fault member
    rw [findings] at member
    rcases List.mem_append.mp member with member | member
    · exact firstClean.binding fault member
    · exact (Finding.faultless_map _).mpr secondClean.binding fault member
  · simp only [length_eq, Listing.wordsOfSource_ofLines closed, List.length_append,
      List.length_map]

end Program

theorem Distances.recordAll_map {move : Occurrence → Occurrence}
    (place : ∀ word, (move word).place = word.place) (distances : Distances)
    (findings : List Finding) :
    distances.recordAll (findings.map (Finding.map move)) =
      distances.recordAll findings := by
  induction findings generalizing distances with
  | nil => rfl
  | cons finding rest induction =>
      rw [List.map_cons, ← List.singleton_append, recordAll_append, induction,
        ← List.singleton_append, recordAll_append]
      cases finding with
      | fault => rfl
      | bound reference distance =>
          change (distances.record (move reference).place distance).recordAll rest = _
          rw [place]
          rfl

end LoxLang
