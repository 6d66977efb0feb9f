import Mathlib
import LoxLang.Proofs.Grammar.NearestIf
import LoxLang.Proofs.Reading.StatementAgreement

/-! # Parsing accepts the grammar

A token list is parsed without faults exactly if it is derivable, and then the statements
are those of the only derivation in which every `else` belongs to the nearest `if`.
-/

namespace LoxLang

open Grammar

namespace Parsed

variable {tokens : List Occurrence} {finish : Occurrence}

theorem derivable_of_upTo (inside : ∀ token ∈ tokens, token.kind ≠ .endOfInput)
    (final : finish.kind = .endOfInput) (clean : (upTo finish tokens).faults = []) :
    Statement .nearestIf .declarations tokens (upTo finish tokens).statements := by
  have room : Reader.Room ⟨tokens ++ [finish], #[]⟩ 19
      (Stream.descent ⟨tokens ++ [finish], #[]⟩) :=
    ⟨by simp only [Stream.descent]; omega⟩
  rcases (Reader.statementsSound _).declarations .wholeInput _ room
      ⟨finish, by simp, final⟩ with
    ⟨statements, after, outcome, taken, added, reads, -, phrase⟩
  have enough : 32 * tokens.length + 19 ≤ Stream.descent ⟨tokens ++ [finish], #[]⟩ := by
    simp only [Stream.descent, List.length_append]
    omega
  obtain ⟨rfl, rfl⟩ := EStateM.Result.ok.inj
    (outcome.symm.trans (declarations_upTo inside final enough [] #[]))
  obtain rfl : tokens = taken := List.append_cancel_right reads.rest
  have noFaults : added = [] := by simpa [clean] using reads.faults.symm
  exact phrase noFaults

theorem upTo_of_derivable (final : finish.kind = .endOfInput) {statements : List Stmt}
    (derivation : Statement .nearestIf .declarations tokens statements) :
    upTo finish tokens = ⟨statements, []⟩ := by
  have outcome := (Reader.read_of_statement derivation).2 .wholeInput [finish] #[]
    (Stream.descent ⟨tokens ++ [finish], #[]⟩) ⟨finish, [], rfl, final⟩
    (by simp only [Stream.descent, List.length_append]; omega)
  dsimp only at outcome
  rw [upTo, ofTokens?, ofTokens, Stream.parse, outcome]
  rfl

end Parsed

/-- Parsing accepts exactly the grammar: of a token list with one end of input, at its
end, there are no faults if and only if the tokens before it are derivable; and then the
statements are those of the derivation in which every `else` belongs to the nearest
`if`. -/
theorem Parsed.accepts_grammar (tokens : List Occurrence) (finish : Occurrence)
    (inner : ∀ token ∈ tokens, token.kind ≠ .endOfInput)
    (finishKind : finish.kind = .endOfInput) :
    ∃ parsed, Parsed.ofTokens? (tokens ++ [finish]) = some parsed ∧
      (parsed.faults = [] ↔
        ∃ statements, Statement .anyIf .declarations tokens statements) ∧
      (parsed.faults = [] → ∀ statements,
        Statement .nearestIf .declarations tokens statements ↔
          statements = parsed.statements) := by
  refine ⟨_, Parsed.ofTokens?_upTo inner finishKind [], ⟨?_, ?_⟩, ?_⟩
  · intro clean
    exact ⟨_, (Parsed.derivable_of_upTo inner finishKind clean).toAnyIf⟩
  · rintro ⟨statements, derivation⟩
    rcases derivation.hasNearest with ⟨statements, derivation⟩
    rw [Parsed.upTo_of_derivable finishKind derivation]
  · intro clean statements
    refine ⟨fun derivation => ?_, ?_⟩
    · rw [Parsed.upTo_of_derivable finishKind derivation]
    · rintro rfl
      exact Parsed.derivable_of_upTo inner finishKind clean

/-- The words of `if (a) if (b) c; else d;`. -/
def danglingElse : List Occurrence :=
  Token.placedFrom 0
    [⟨Keyword.ifWord, "if", .nil, 1⟩, ⟨Symbol.leftParen, "(", .nil, 1⟩, .identifier "a" 1,
      ⟨Symbol.rightParen, ")", .nil, 1⟩, ⟨Keyword.ifWord, "if", .nil, 1⟩,
      ⟨Symbol.leftParen, "(", .nil, 1⟩, .identifier "b" 1,
        ⟨Symbol.rightParen, ")", .nil, 1⟩,
      .identifier "c" 1, ⟨Symbol.semicolon, ";", .nil, 1⟩,
        ⟨Keyword.elseWord, "else", .nil, 1⟩,
      .identifier "d" 1, ⟨Symbol.semicolon, ";", .nil, 1⟩]

/-- The `else` belongs to the second `if`. -/
theorem Parsed.accepts_danglingElse :
    ∃ a b c d, Statement .nearestIf .declarations danglingElse
      [.ifThen (.variable a) (.ifThen (.variable b) (.expression (.variable c))
        (some (.expression (.variable d)))) none] := by
  rcases Parsed.accepts_grammar danglingElse ⟨.endOfInput 1, 13⟩ (by decide) rfl with
      ⟨parsed, found, -, statements⟩
  have outcome : Parsed.ofTokens? (danglingElse ++ [⟨.endOfInput 1, 13⟩]) =
      some ⟨[.ifThen (.variable ⟨.identifier "a" 1, 2⟩)
        (.ifThen (.variable ⟨.identifier "b" 1, 6⟩)
          (.expression (.variable ⟨.identifier "c" 1, 8⟩))
          (some (.expression (.variable ⟨.identifier "d" 1, 11⟩)))) none], []⟩ := by cbv
  rcases Option.some.inj (outcome.symm.trans found) with rfl
  exact ⟨_, _, _, _, (statements rfl _).mpr rfl⟩

end LoxLang
