import LoxLang.Proofs.Reading.Acceptance
import LoxLang.Proofs.Reading.Recovery

/-! # Parsing is local

Programs without faults and simple statements with or without faults are read one after
the other as each is read alone. No fault in one of them hides a fault of another, and
none is noticed that is not there in the part by itself.
-/

namespace LoxLang

open Grammar Reader

/-! ## Segments -/

/-- Tokens that are read by themselves: a program without faults, or a simple statement
and its semicolon. -/
inductive Segment : List Occurrence → Prop
  | faultless {tokens : List Occurrence} {finish : Occurrence} {statements : List Stmt}
      (inside : ∀ token ∈ tokens, token.kind ≠ .endOfInput)
      (finishKind : finish.kind = .endOfInput)
      (parsed : Parsed.ofTokens? (tokens ++ [finish]) = some ⟨statements, []⟩) :
      Segment tokens
  | simple {tokens : List Occurrence} {semicolon : Occurrence} (simple : Simple tokens)
      (semicolonKind : semicolon.kind = Symbol.semicolon) :
      Segment (tokens ++ [semicolon])

theorem Segment.inside {tokens : List Occurrence} (segment : Segment tokens) :
    ∀ token ∈ tokens, token.kind ≠ .endOfInput := by
  cases segment with
  | faultless inside => exact inside
  | simple simple semicolonKind =>
      intro token member
      obtain member | member := List.mem_append.mp member
      · exact (simple.inside token member).1
      · rw [List.mem_singleton.mp member, semicolonKind]
        decide

def Parsed.append (first second : Parsed) : Parsed :=
  ⟨first.statements ++ second.statements, first.faults ++ second.faults⟩

namespace Parsed

variable {tokens rest : List Occurrence} {finish finish' : Occurrence}

theorem upTo_derivable_append (final : finish.kind = .endOfInput) (noElse : NoElse rest) :
    ∀ {tokens : List Occurrence} {statements : List Stmt},
      Statement .nearestIf .declarations tokens statements →
        (∀ token ∈ tokens ++ rest, token.kind ≠ .endOfInput) →
          upTo finish (tokens ++ rest) = append ⟨statements, []⟩ (upTo finish rest)
  | _, _, .noDeclarations, _ => rfl
  | _, _, @Statement.moreDeclarations _ first others tree trees phrase phrases, inside => by
      rcases read_of_statement phrase with ⟨begins, taken⟩
      have nonempty : first ++ (others ++ rest) ≠ [] := by
        rcases begins with ⟨token, later, rfl, -⟩
        simp
      rw [List.append_assoc] at inside
      have othersNoElse : NoElse (others ++ rest) :=
        (read_of_statement phrases).1.append noElse
      have followed : NextIsNoElse (others ++ rest ++ [finish]) :=
        othersNoElse.before ⟨finish, rfl, by simp [final]⟩
      have outcome := taken (others ++ rest ++ [finish]) #[] _ followed (Nat.le_refl _)
      rw [← List.append_assoc] at outcome
      rw [List.append_assoc, upTo_of_declaration inside final nonempty
        (by simp only [List.length_append, List.length_cons, List.length_nil]; omega) outcome,
        upTo_derivable_append final noElse phrases
          fun token member => inside token (List.mem_append_right _ member)]
      rfl

theorem upTo_simple_append {semicolon : Occurrence} (final : finish.kind = .endOfInput)
    (final' : finish'.kind = .endOfInput)
    (semicolonKind : semicolon.kind = Symbol.semicolon) (simple : Simple tokens)
    (inside : ∀ token ∈ tokens ++ [semicolon] ++ rest, token.kind ≠ .endOfInput) :
    upTo finish (tokens ++ [semicolon] ++ rest) =
      (upTo finish' (tokens ++ [semicolon])).append (upTo finish rest) := by
  -- The depth that the longer input needs serves for both.
  have enough : 32 * tokens.length + 18 ≤
      32 * (tokens ++ [semicolon] ++ rest).length + 50 := by
    simp only [List.length_append]
    omega
  have shorter : 32 * (tokens ++ [semicolon]).length + 50 ≤
      32 * (tokens ++ [semicolon] ++ rest).length + 50 := by
    simp only [List.length_append]
    omega
  rcases declaration_of_simple semicolonKind simple enough with ⟨found, added, outcome⟩
  have first := outcome (rest ++ [finish]) #[] (by simp)
  have alone := outcome ([] ++ [finish']) #[] (by simp)
  have shape : tokens ++ semicolon :: (rest ++ [finish]) =
      tokens ++ [semicolon] ++ rest ++ [finish] := by simp
  have shape' : tokens ++ semicolon :: ([] ++ [finish']) =
      tokens ++ [semicolon] ++ [finish'] := by simp
  rw [shape] at first
  rw [shape'] at alone
  have inside' : ∀ token ∈ tokens ++ [semicolon], token.kind ≠ .endOfInput :=
    fun token member => inside token (List.mem_append_left rest member)
  rw [upTo_of_declaration inside final (by simp) (Nat.le_refl _) first,
    upTo_of_declaration inside' final' (by simp) shorter alone, upTo_nil final']
  simp only [append, List.append_nil]

theorem upTo_segment_append (segment : Segment tokens) (final : finish.kind = .endOfInput)
    (final' : finish'.kind = .endOfInput) (noElse : NoElse rest)
    (inside : ∀ token ∈ tokens ++ rest, token.kind ≠ .endOfInput) :
    upTo finish (tokens ++ rest) =
      (upTo finish' tokens).append (upTo finish rest) := by
  cases segment with
  | simple simple semicolonKind =>
      exact upTo_simple_append final final' semicolonKind simple inside
  | @faultless _ last statements inner lastKind parsed =>
      rw [ofTokens?_upTo inner lastKind] at parsed
      have clean : upTo last tokens = ⟨statements, []⟩ := Option.some.inj parsed
      have derivation : Statement .nearestIf .declarations tokens
          (upTo last tokens).statements :=
        derivable_of_upTo inner lastKind (by rw [clean])
      rw [clean] at derivation
      rw [upTo_derivable_append final noElse derivation inside,
        upTo_of_derivable final' derivation]

theorem upTo_segment_finish (segment : Segment tokens) (final : finish.kind = .endOfInput)
    (final' : finish'.kind = .endOfInput) : upTo finish' tokens = upTo finish tokens := by
  have noElse : NoElse [] := by simp [NoElse]
  have alone := upTo_segment_append segment final final' noElse
    (by simpa using segment.inside)
  simpa [upTo_nil final, append] using alone.symm

theorem noElse_flatten {segments : List (List Occurrence)}
    (noElse : ∀ segment ∈ segments, NoElse segment) : NoElse segments.flatten := by
  induction segments with
  | nil => simp [NoElse]
  | cons segment segments induction =>
      simp only [List.forall_mem_cons] at noElse
      exact noElse.1.append (induction noElse.2)

theorem upTo_segments {segments : List (List Occurrence)}
    (apart : ∀ segment ∈ segments, Segment segment)
    (noElse : ∀ segment ∈ segments, NoElse segment) (restNoElse : NoElse rest)
    (final : finish.kind = .endOfInput)
    (inside : ∀ token ∈ segments.flatten ++ rest, token.kind ≠ .endOfInput) :
    upTo finish (segments.flatten ++ rest) =
      (segments.map (upTo finish)).foldr append (upTo finish rest) := by
  induction segments with
  | nil => rfl
  | cons segment segments induction =>
      simp only [List.forall_mem_cons] at apart noElse
      rw [List.flatten_cons, List.append_assoc] at inside ⊢
      have followed : NoElse (segments.flatten ++ rest) :=
        (noElse_flatten noElse.2).append restNoElse
      rw [upTo_segment_append apart.1 final final followed inside,
        induction apart.2 noElse.2 fun token member =>
          inside token (List.mem_append_right _ member)]
      rfl

end Parsed

theorem Parsed.foldr_append (parts : List Parsed) (last : Parsed) :
    parts.foldr Parsed.append last =
      ⟨parts.flatMap Parsed.statements ++ last.statements,
        parts.flatMap Parsed.faults ++ last.faults⟩ := by
  induction parts with
  | nil => rfl
  | cons part parts induction => simp [Parsed.append, induction]

/-! ## Concatenations of segments -/

/-- Parsing a concatenation of segments with other tokens behind them finds the statements
and the faults of each segment, parsed alone, and then those of the others. -/
theorem Parsed.reads_segments_apart {segments : List (List Occurrence)}
    {others : List Occurrence} (apart : ∀ segment ∈ segments, Segment segment)
    (noElse : ∀ segment ∈ segments, NoElse segment) (othersNoElse : NoElse others)
    (finished : ∃ token ∈ others, token.kind = .endOfInput) :
    ∃ parts parsed,
      List.Forall₂ (fun segment part => ∀ finish : Occurrence, finish.kind = .endOfInput →
        Parsed.ofTokens? (segment ++ [finish]) = some part) segments parts ∧
      Parsed.ofTokens? others = some parsed ∧
      Parsed.ofTokens? (segments.flatten ++ others) =
        some ⟨parts.flatMap Parsed.statements ++ parsed.statements,
          parts.flatMap Parsed.faults ++ parsed.faults⟩ := by
  rcases exists_first_end finished with ⟨rest, finish, behind, rfl, restInside, final⟩
  have inside : ∀ token ∈ segments.flatten, token.kind ≠ .endOfInput := by
    intro token member
    rcases List.mem_flatten.mp member with ⟨segment, isSegment, member⟩
    exact (apart segment isSegment).inside token member
  have restNoElse : NoElse rest := by
    cases rest with
    | nil => simp [NoElse]
    | cons token rest => exact othersNoElse
  have whole : ∀ token ∈ segments.flatten ++ rest, token.kind ≠ .endOfInput := by
    intro token member
    exact (List.mem_append.mp member).elim (inside token) (restInside token)
  refine ⟨segments.map (upTo finish), upTo finish rest, ?_,
    ofTokens?_upTo restInside final behind, ?_⟩
  · rw [List.forall₂_map_right_iff]
    refine List.forall₂_same.mpr fun segment member finish' final' => ?_
    have segment := apart segment member
    rw [ofTokens?_upTo segment.inside final', upTo_segment_finish segment final final']
  · rw [← List.append_assoc, ofTokens?_upTo whole final behind, ← Parsed.foldr_append,
      ← upTo_segments apart noElse restNoElse final whole]

/-- The words of `var = 1;` and of `\x7b a; \x7d`. -/
def damagedSegments : List (List Occurrence) :=
  [Token.placedFrom 0
    [⟨Keyword.varWord, "var", .nil, 1⟩, ⟨Symbol.equal, "=", .nil, 1⟩,
      ⟨.number, "1", .number 1, 1⟩] ++ [⟨⟨Symbol.semicolon, ";", .nil, 1⟩, 3⟩],
   Token.placedFrom 4
    [⟨Symbol.leftBrace, "\x7b", .nil, 2⟩, .identifier "a" 2,
      ⟨Symbol.semicolon, ";", .nil, 2⟩, ⟨Symbol.rightBrace, "\x7d", .nil, 2⟩]]

/-- The words of `b;` and the end of input. -/
def wordsBehind : List Occurrence :=
  Token.placedFrom 8
    [.identifier "b" 3, ⟨Symbol.semicolon, ";", .nil, 3⟩, .endOfInput 3]

/-- The name missing in the declaration is the only fault, and hides neither the block nor
the statement behind it. -/
theorem Parsed.reads_segments_apart_damaged :
    Parsed.ofTokens? (damagedSegments.flatten ++ wordsBehind) =
      some ⟨[.block [.expression (.variable ⟨.identifier "a" 2, 5⟩)],
          .expression (.variable ⟨.identifier "b" 3, 8⟩)],
        [⟨⟨⟨Symbol.equal, "=", .nil, 1⟩, 1⟩, .expected .variableName⟩]⟩ := by
  have blockAlone : Parsed.ofTokens?
      (damagedSegments[1] ++ [⟨.endOfInput 2, 8⟩]) =
        some ⟨[.block [.expression (.variable ⟨.identifier "a" 2, 5⟩)]], []⟩ := by cbv
  have declarationAlone : Parsed.ofTokens?
      (damagedSegments[0] ++ [⟨.endOfInput 1, 4⟩]) =
        some ⟨[], [⟨⟨⟨Symbol.equal, "=", .nil, 1⟩, 1⟩, .expected .variableName⟩]⟩ := by cbv
  have others : Parsed.ofTokens? wordsBehind =
      some ⟨[.expression (.variable ⟨.identifier "b" 3, 8⟩)], []⟩ := by cbv
  have apart : ∀ segment ∈ damagedSegments, Segment segment := by
    simp only [damagedSegments, List.forall_mem_cons]
    refine ⟨.simple ⟨by decide, by decide, by decide⟩ rfl, ?_, by simp⟩
    exact .faultless (by decide) rfl blockAlone
  have noElse : ∀ segment ∈ damagedSegments, NoElse segment := by
    simp [damagedSegments, NoElse, Token.placedFrom]
  have behindNoElse : NoElse wordsBehind := by
    simp [wordsBehind, NoElse, Token.placedFrom, Token.identifier]
  rcases Parsed.reads_segments_apart apart noElse behindNoElse (by decide) with
    ⟨parts, parsed, alone, behind, whole⟩
  obtain rfl := Option.some.inj (others.symm.trans behind)
  rcases alone with _ | ⟨first, _ | ⟨second, _ | _⟩⟩
  obtain rfl := Option.some.inj (declarationAlone.symm.trans (first _ rfl))
  obtain rfl := Option.some.inj (blockAlone.symm.trans (second _ rfl))
  exact whole

end LoxLang
