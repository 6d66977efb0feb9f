import LoxLang.Proofs.Binding.Exactness
import LoxLang.Proofs.Reading.Totality

/-! # References own their places

Whatever tokens are parsed, and however many faults are noted meanwhile, no token becomes
more than one reference. So what has been found about a reference is recorded where nothing
else is recorded, neither for the same program nor for one that is read at other places.
-/

namespace LoxLang

/-! ## References in what is parsed -/

theorem Parsed.drawn_references {tokens : List Occurrence} {parsed : Parsed}
    (isParsed : ofTokens? tokens = some parsed) :
    Reference.Drawn (Stmt.referencesOfAll parsed.statements) tokens := by
  by_cases unended : ∀ token ∈ tokens, token.kind ≠ .endOfInput
  · rw [ofTokens?, ofTokens_unended unended] at isParsed
    cases isParsed
  -- What stands behind the first end of input is not parsed.
  have finished : ∃ token ∈ tokens, token.kind = .endOfInput := by simpa using unended
  rcases exists_first_end finished with ⟨rest, finish, later, rfl, inside, final⟩
  rw [ofTokens?_upTo inside final] at isParsed
  obtain rfl := Option.some.inj isParsed
  have drawn := (Parsed.drawn_upTo inside final).references
  rw [Stmt.reference?_mentionsOfAll] at drawn
  exact ⟨drawn.contained.trans (List.sublist_append_left _ _).subperm, drawn.kinds⟩

theorem Reference.Drawn.pairwise {references : List Reference} {tokens : List Occurrence}
    (drawn : Drawn references tokens) (different : tokens.Pairwise (·.place ≠ ·.place)) :
    references.Pairwise (·.occurrence.place ≠ ·.occurrence.place) := by
  rcases drawn.contained with ⟨words, perm, sublist⟩
  have apart := different.sublist sublist
  rw [perm.pairwise_iff Ne.symm, List.pairwise_map] at apart
  exact apart

/-! ## References in programs -/

namespace Distances

theorem get?_recordAll_congr {distances distances' : Distances} {place : Nat}
    (same : distances.get? place = distances'.get? place) (findings : List Finding) :
    (distances.recordAll findings).get? place =
      (distances'.recordAll findings).get? place := by
  induction findings generalizing distances distances' with
  | nil => exact same
  | cons finding rest induction =>
      apply induction
      cases finding with
      | fault => exact same
      | bound reference distance =>
          simp only [recordFinding, get?_record, same]

end Distances

namespace Program

variable {firstPlace : Nat} {source : String}

theorem get?_recordAll_of_fresh (program : Program) {distances : Distances} {place : Nat}
    (fresh : distances.get? place = none) :
    (distances.recordAll program.findings).get? place = program.distances.get? place :=
  Distances.get?_recordAll_congr (fresh.trans rfl) program.findings

end Program

end LoxLang
