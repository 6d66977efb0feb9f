import LoxLang.Proofs.Lexical.Agreement

/-! # Runs end well

Every text can be read to its end, with whatever faults. A run of it is complete, or
rejects the text with complaints, or stops with a run-time error, or is still in a loop
when its budget is used up. There is no further way: what only defects of the checker
could lead to is never reached.
-/

namespace LoxLang.Session

theorem reads_wholeInput (firstPlace : Nat) (source : String) :
    let stream : Stream :=
      ⟨Token.placedFrom firstPlace (Listing.ofSource source).tokens, #[]⟩
    ∃ statements after finish,
      Reader.declarations stream.descent .wholeInput stream = .ok statements after ∧
        after.rest = [finish] ∧ stream.rest.getLast? = some finish ∧
        finish.kind = .endOfInput := by
  intro stream
  have tokens : stream.rest = _ := Program.placed_tokens firstPlace source
  have enough : 32 * (Token.placedFrom firstPlace (wordsOfSource source)).length + 19 ≤
      stream.descent := by
    rw [Stream.descent, tokens, List.length_append]
    omega
  have final : (Program.endOfSource firstPlace source).kind = .endOfInput := rfl
  have outcome := Parsed.declarations_upTo (Program.words_inside firstPlace source) final
    enough [] #[]
  rw [← tokens] at outcome
  exact ⟨_, _, _, outcome, rfl, by rw [tokens, List.getLast?_concat], final⟩

theorem complaints_ne_nil {program : Program} (unclean : ¬program.Clean) :
    program.complaints ≠ [] := by
  rw [← Program.complaints_isEmpty_iff, List.isEmpty_iff] at unclean
  exact unclean

/-- After every history a text is read to its end and its run ends in one of four ways,
none of which is the discovery of a defect. -/
theorem run_ends_well (clock : Clock) (history : List (Budget × String)) (budget : Budget)
    (source : String) :
    let session := (start clock).after history
    let stream : Stream :=
      ⟨Token.placedFrom session.nextPlace (Listing.ofSource source).tokens, #[]⟩
    (∃ statements after finish,
      Reader.declarations stream.descent .wholeInput stream = .ok statements after ∧
        after.rest = [finish] ∧ stream.rest.getLast? = some finish ∧
        finish.kind = .endOfInput) ∧
      ((session.run budget source).2.ending = .completed ∨
        (∃ complaints, complaints ≠ [] ∧
          (session.run budget source).2.ending = .rejected complaints) ∨
        (∃ error, (session.run budget source).2.ending = .stopped (.error error)) ∨
        (session.run budget source).2.ending = .stopped .unfinished) := by
  intro session _
  refine ⟨reads_wholeInput _ _, ?_⟩
  have sound := ((Lexical.Session.agrees_after clock history).run budget source).1.sound
  change ∀ defect, (session.run budget source).2.ending ≠ _ at sound
  by_cases clean : (Program.ofSource session.nextPlace source).Clean
  · rw [run_of_clean _ _ _ clean] at sound ⊢
    generalize Action.runProgram budget _ _ = result at sound ⊢
    cases result with
    | ok => exact .inl rfl
    | error stop =>
        cases stop with
        | error error => exact .inr (.inr (.inl ⟨error, rfl⟩))
        | defect defect => exact absurd rfl (sound defect)
        | unfinished => exact .inr (.inr (.inr rfl))
  · rw [run_of_complaints _ _ _ clean]
    exact .inr (.inl ⟨_, complaints_ne_nil clean, rfl⟩)

end LoxLang.Session
