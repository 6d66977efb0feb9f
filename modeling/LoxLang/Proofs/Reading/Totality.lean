import Mathlib
import LoxLang.Proofs.Reading.Charges
import LoxLang.Proofs.Reading.Moves
import LoxLang.Proofs.Reading.StatementAgreement

/-! # Parsing is total

Parsing a token list with an end of input delivers declarations, whatever its tokens are:
reading stops at the first end of input and nowhere else, no abandoned declaration gets
out, and there are no more faults than tokens. Without an end of input reading comes to
the last token and asks for another one. This follows from what happens when an end of
input is put there: up to it both are read in the same way.
-/

namespace LoxLang

open Reader

namespace Reader

theorem rest_of_declarations {after : Stream} {statements : List Stmt} {depth : Nat} :
    ∀ {stream : Stream}, declarations depth .wholeInput stream = .ok statements after →
      after.rest ≠ [] := by
  induction depth generalizing statements with
  | zero =>
      intro stream outcome
      cases outcome
  | succ depth induction =>
      intro stream outcome
      rw [declarations] at outcome
      rcases of_bind_ok outcome with ⟨answer, between, ended, outcome⟩
      cases answer with
      | true =>
          obtain ⟨-, rfl⟩ := EStateM.Result.ok.inj outcome
          rcases stream with ⟨_ | ⟨token, rest⟩, faults⟩
          · cases ended
          · obtain ⟨-, rfl⟩ := EStateM.Result.ok.inj ended
            exact List.cons_ne_nil token rest
      | false =>
          rcases of_bind_ok outcome with ⟨first, between', -, outcome⟩
          rcases of_bind_ok outcome with ⟨others, between'', further, outcome⟩
          obtain ⟨-, rfl⟩ := EStateM.Result.ok.inj outcome
          exact induction further

end Reader

namespace Parsed

variable {tokens : List Occurrence} {finish : Occurrence} {depth : Nat}

/-- Without an end of input every token is read, and then one more is asked for. -/
theorem declarations_unended (inside : ∀ token ∈ tokens, token.kind ≠ .endOfInput)
    (enough : 32 * tokens.length + 19 ≤ depth) (noted : Array ReadingFault) :
    ∃ faults, declarations depth .wholeInput ⟨tokens, noted⟩ =
      .error .pastEnd ⟨[], faults⟩ := by
  obtain ⟨finish, final⟩ : ∃ finish : Occurrence, finish.kind = .endOfInput :=
    ⟨⟨.endOfInput 1, 0⟩, rfl⟩
  have same : SameKinds id := ⟨fun _ => rfl, fun _ => rfl⟩
  have moves := (statementsMove same [finish] depth).declarations .wholeInput
    ⟨tokens, noted⟩
  have shape : Stream.map id [finish] ⟨tokens, noted⟩ = ⟨tokens ++ [finish], noted⟩ := by
    have unmoved : ReadingFault.map id = id := rfl
    simp [Stream.map, unmoved]
  rw [shape, declarations_upTo inside final enough [] noted] at moves
  cases outcome : declarations depth .wholeInput ⟨tokens, noted⟩ with
  | ok statements after =>
      rw [outcome] at moves
      obtain ⟨-, left⟩ := EStateM.Result.ok.inj moves
      have nothing : after.rest.map id ++ [finish] = [finish] :=
        (congrArg Stream.rest left).symm
      exact absurd (by simpa using nothing) (rest_of_declarations outcome)
  | error stop after =>
      rw [outcome] at moves
      cases stop with
      | pastEnd => exact ⟨after.faults, by rw [← moves.1]⟩
      | abandoned | tooDeep => cases moves

theorem ofTokens_unended (inside : ∀ token ∈ tokens, token.kind ≠ .endOfInput) :
    ofTokens tokens = .error .pastEnd := by
  have enough : 32 * tokens.length + 19 ≤ Stream.descent ⟨tokens, #[]⟩ := by
    simp only [Stream.descent]
    omega
  rcases declarations_unended inside enough #[] with ⟨faults, outcome⟩
  rw [ofTokens, Stream.parse, outcome]

theorem upTo_pays (inside : ∀ token ∈ tokens, token.kind ≠ .endOfInput)
    (final : finish.kind = .endOfInput) :
    (∀ fault ∈ (upTo finish tokens).faults, fault.token ∈ tokens ++ [finish]) ∧
      (upTo finish tokens).faults.length ≤ tokens.length := by
  have holds : Stream.Holds (tokens ++ [finish]) ⟨tokens ++ [finish], #[]⟩ :=
    ⟨List.Subset.refl _, finish, by simp, final⟩
  have pays := (statementsPay (tokens ++ [finish]) (32 * tokens.length + 19)).declarations
    .wholeInput _ holds
  rw [declarations_upTo inside final (Nat.le_refl _)] at pays
  rcases pays with ⟨taken, added, reads, blamed, bound⟩
  obtain rfl : (upTo finish tokens).faults = added := by simpa using reads.faults
  obtain rfl : tokens = taken := List.append_cancel_right reads.rest
  exact ⟨blamed, by omega⟩

end Parsed

/-- Parsing a token list fails exactly if the list has no end of input, and only because
a token was asked for behind the last: then all tokens are read, at any depth of descent
that suffices. Otherwise the tokens before the first end of input are all taken, at any
such depth and behind any faults, the declarations are delivered and not abandoned, and
they and the faults are the same whatever stands behind the first end of input. Every
fault is noted at one of these tokens or at the end, and there are no more faults than
tokens before the end. -/
theorem Parsed.reads_to_first_end :
    (∀ (tokens : List Occurrence) (interruption : Interruption),
      Parsed.ofTokens tokens = .error interruption ↔
        interruption = .pastEnd ∧ ∀ token ∈ tokens, token.kind ≠ .endOfInput) ∧
    (∀ tokens : List Occurrence, (∀ token ∈ tokens, token.kind ≠ .endOfInput) →
      ∀ depth noted, 32 * tokens.length + 19 ≤ depth →
        ∃ faults, declarations depth .wholeInput ⟨tokens, noted⟩ =
          .error .pastEnd ⟨[], faults⟩) ∧
    ∀ (tokens : List Occurrence) (finish : Occurrence),
      (∀ token ∈ tokens, token.kind ≠ .endOfInput) → finish.kind = .endOfInput →
      ∃ parsed : Parsed,
        (∀ later, Parsed.ofTokens (tokens ++ finish :: later) = .ok parsed) ∧
        (∀ later depth noted, 32 * tokens.length + 19 ≤ depth →
          declarations depth .wholeInput ⟨tokens ++ finish :: later, noted⟩ =
            .ok parsed.statements
              ⟨finish :: later, noted ++ parsed.faults.toArray⟩) ∧
        (∀ fault ∈ parsed.faults, fault.token ∈ tokens ++ [finish]) ∧
        parsed.faults.length ≤ tokens.length := by
  refine ⟨fun tokens interruption => ?_, ?_, ?_⟩
  · by_cases unended : ∀ token ∈ tokens, token.kind ≠ .endOfInput
    · rw [Parsed.ofTokens_unended unended, Except.error.injEq]
      exact ⟨fun same => ⟨same.symm, unended⟩, fun same => same.1.symm⟩
    · have finished : ∃ token ∈ tokens, token.kind = .endOfInput := by simpa using unended
      rcases exists_first_end finished with ⟨rest, finish, later, rfl, inside, final⟩
      rw [Parsed.ofTokens_upTo inside final]
      exact ⟨nofun, fun failed => absurd failed.2 unended⟩
  · intro tokens inside depth noted enough
    exact Parsed.declarations_unended inside enough noted
  · intro tokens finish inside final
    refine ⟨Parsed.upTo finish tokens, Parsed.ofTokens_upTo inside final, ?_,
      Parsed.upTo_pays inside final⟩
    intro later depth noted enough
    exact Parsed.declarations_upTo inside final enough later noted

/-- The words of `\x7b \x7b a +`. -/
def unclosedBlocks : List Occurrence :=
  Token.placedFrom 0
    [⟨Symbol.leftBrace, "\x7b", .nil, 1⟩, ⟨Symbol.leftBrace, "\x7b", .nil, 1⟩,
      .identifier "a" 1, ⟨Symbol.plus, "+", .nil, 1⟩]

/-- The blocks and the sum have three faults before an end of input, and cannot be read
without one. -/
theorem Parsed.reads_to_first_end_unclosed :
    Parsed.ofTokens unclosedBlocks = .error .pastEnd ∧
    ∃ parsed : Parsed,
      (∀ later, Parsed.ofTokens (unclosedBlocks ++ ⟨.endOfInput 1, 4⟩ :: later) =
        .ok parsed) ∧
      parsed.faults.length = 3 ∧
      ∀ fault ∈ parsed.faults, fault.token = ⟨.endOfInput 1, 4⟩ := by
  rcases Parsed.reads_to_first_end with ⟨failing, -, finished⟩
  have inside : ∀ token ∈ unclosedBlocks, token.kind ≠ .endOfInput := by decide
  refine ⟨(failing _ _).mpr ⟨rfl, inside⟩, ?_⟩
  rcases finished _ ⟨.endOfInput 1, 4⟩ inside rfl with ⟨parsed, same, -, -, -⟩
  refine ⟨parsed, same, ?_⟩
  have computed : Parsed.ofTokens (unclosedBlocks ++ [⟨.endOfInput 1, 4⟩]) =
      .ok ⟨[], [⟨⟨.endOfInput 1, 4⟩, .expected .expression⟩,
        ⟨⟨.endOfInput 1, 4⟩, .expected .blockEnd⟩,
        ⟨⟨.endOfInput 1, 4⟩, .expected .blockEnd⟩]⟩ := by cbv
  obtain rfl := Except.ok.inj (computed.symm.trans (same []))
  simp

end LoxLang
