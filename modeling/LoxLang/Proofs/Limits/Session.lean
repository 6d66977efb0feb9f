import LoxLang.Proofs.Limits.Evaluation
import LoxLang.Proofs.Session.Layout

/-! # The limit of calls has no other effect

Whatever has run in a session before, a text that comes to its end within the limit of
active calls comes to the same end within every higher limit, and leaves the same session
behind. If the limit was exceeded, then what had been printed by then is what a run within
a higher limit prints first.
-/

namespace LoxLang

open LoxLang.Action

/-- The stops by a limit: too many active calls, or too many rounds of a loop. -/
inductive Stop.IsLimit : Stop → Prop
  | overflow (paren : Occurrence) : IsLimit (.overflow paren)
  | unfinished : IsLimit .unfinished

theorem textOfLines_append (first second : List String) :
    textOfLines (first ++ second) = textOfLines first ++ textOfLines second := by
  have added : ∀ (lines : List String) (text : String),
      lines.foldl (fun text line => text ++ line ++ "\n") text =
        text ++ textOfLines lines := by
    intro lines
    induction lines with
    | nil => simp [textOfLines]
    | cons line rest induction =>
        intro text
        rw [textOfLines, List.foldl_cons, List.foldl_cons, induction, induction]
        simp only [String.empty_append, String.append_assoc]
  rw [textOfLines, List.foldl_append, added]
  rfl

section Programs

variable {limits : Stop → Prop} {budget budget' : Budget}
  (unfinished : limits .unfinished) (deeper : budget.depth ≤ budget'.depth)
  (more : budget.rounds ≤ budget'.rounds)
  (overflow : budget.depth = budget'.depth ∨ ∀ paren, limits (.overflow paren))

include unfinished deeper more overflow

theorem outlasts_runProgram (statements : List Stmt) :
    Outlasts limits (runProgram budget' statements) (runProgram budget statements) := by
  induction statements with
  | nil => exact .pure _
  | cons statement rest induction =>
      have calls := outlasts_callWithin unfinished more deeper overflow
      exact (outlasts_execute unfinished more calls statement).bind fun _ => induction

namespace Session

theorem run_outlasts (session : Session) (source : String) :
    (session.run budget' source = session.run budget source ∨
      ∃ stop, limits stop ∧ (session.run budget source).2.ending = .stopped stop) ∧
    (session.run budget source).2.printed <+: (session.run budget' source).2.printed := by
  by_cases clean : (Program.ofSource session.nextPlace source).Clean
  · rw [run_of_clean _ _ _ clean, run_of_clean _ _ _ clean]
    have outlasts := outlasts_runProgram unfinished deeper more overflow
      (Program.ofSource session.nextPlace source).statements
    obtain same | ⟨stop, reached, stopped, limit, printed⟩ := outlasts.agrees
      (session.accept (.ofSource session.nextPlace source)).machine
    · rw [same]
      exact ⟨.inl rfl, List.prefix_refl _⟩
    · rw [stopped]
      refine ⟨.inr ⟨stop, limit, rfl⟩, ?_⟩
      rw [leaves] at printed
      generalize runProgram budget' _ _ = result at printed ⊢
      cases result with
      | ok => exact printed
      | error => exact printed
  · rw [run_of_complaints _ _ _ clean, run_of_complaints _ _ _ clean]
    exact ⟨.inl rfl, List.prefix_refl _⟩

end Session

end Programs

namespace Session

variable (session : Session) (source : String)

theorem run_eq_of_rounds {budget budget' : Budget} (same : budget.depth = budget'.depth)
    (more : budget.rounds ≤ budget'.rounds)
    (ended : (session.run budget source).2.ending ≠ .stopped .unfinished) :
    session.run budget' source = session.run budget source := by
  have unfinished : (fun stop : Stop => stop = .unfinished) .unfinished := rfl
  have outlasts :=
    run_outlasts unfinished (Nat.le_of_eq same) more (.inl same) session source
  obtain unchanged | ⟨stop, rfl, stopped⟩ := outlasts.1
  · exact unchanged
  · exact absurd stopped ended

/-- The limit of active calls has no effect but to stop a run. A text that comes to its end
otherwise comes to the same end within every higher limit and leaves the same session. In
any case what it prints is what it prints first within a higher limit. Loops go on as long
as they like: the number of their rounds does not matter to a run that is finished. -/
theorem deeper_calls_only_go_on {budget budget' : Budget}
    (deeper : budget.depth ≤ budget'.depth)
    (ended : (session.run budget source).2.ending ≠ .stopped .unfinished)
    (more : budget.rounds ≤ budget'.rounds ∨
      (session.run budget' source).2.ending ≠ .stopped .unfinished) :
    let narrow := session.run budget source
    let wide := session.run budget' source
    (budget.depth = budget'.depth ∨
      narrow.2.ending.runtimeMessage? ≠ some "Stack overflow." → wide = narrow) ∧
      ∃ later, wide.2.printed = narrow.2.printed ++ later ∧
        wide.2.output = narrow.2.output ++ textOfLines later := by
  intro narrow wide
  -- Within the rounds of the narrow budget the wide run is the same if it ended before.
  obtain ⟨middle, same, rounds, depth⟩ : ∃ middle : Budget,
      session.run middle source = wide ∧ budget.rounds ≤ middle.rounds ∧
        middle.depth = budget'.depth := by
    rcases Nat.le_total budget.rounds budget'.rounds with fewer | fewer
    · exact ⟨budget', rfl, fewer, rfl⟩
    · obtain more | ended' := more
      · exact ⟨budget', rfl, more, rfl⟩
      · exact ⟨⟨budget'.depth, budget.rounds⟩,
          session.run_eq_of_rounds source rfl fewer ended', Nat.le_refl _, rfl⟩
  rw [← depth] at deeper ⊢
  have outlasts := run_outlasts Stop.IsLimit.unfinished deeper rounds (.inr .overflow)
    session source
  rw [same] at outlasts
  obtain ⟨agrees, later, printed⟩ := outlasts
  refine ⟨?_, later, printed.symm, ?_⟩
  · rintro (equal | different)
    · rw [← same]
      exact session.run_eq_of_rounds source equal rounds ended
    · obtain unchanged | ⟨stop, limit, stopped⟩ := agrees
      · exact unchanged
      · cases limit with
        | overflow paren => exact absurd (congrArg Ending.runtimeMessage? stopped) different
        | unfinished => exact absurd stopped ended
  · rw [Outcome.output, Outcome.output, ← textOfLines_append, printed]

def recursion : String := "fun f() \x7b print nil; f(); \x7d f();"

def recursionProgram : Program where
  statements :=
    let name (place : Nat) : Occurrence := ⟨.identifier "f" 1, place⟩
    let call (place : Nat) : Stmt := .expression
      (.call (.variable (name place)) ⟨⟨Symbol.rightParen, ")", .nil, 1⟩, place + 2⟩ [])
    [.function (.mk (name 1) [] [.print (.literal .nil), call 8]), call 13]
  lexicalFaults := []
  readingFaults := []
  length := 17

theorem ofSource_recursion : Program.ofSource 0 recursion = recursionProgram := by cbv

theorem run_recursion (budget : Budget) :
    (start 0).run budget recursion =
      ((start 0).accept recursionProgram).conclude
        (runProgram budget recursionProgram.statements
          ((start 0).accept recursionProgram).machine) := by
  have clean : (Program.ofSource (start 0).nextPlace recursion).Clean := by
    rw [show (start 0).nextPlace = 0 from rfl, ofSource_recursion,
      ← Program.complaints_isEmpty_iff]
    cbv
  rw [← ofSource_recursion]
  exact run_of_clean (start 0) budget recursion clean

/-- What it prints up to the first call that is too deep is the beginning of what it prints
if one more call may be active. -/
theorem deeper_calls_only_go_on_recursion :
    ((start 0).run ⟨1, 1⟩ recursion).2.ending.runtimeMessage? = some "Stack overflow." ∧
      ((start 0).run ⟨1, 1⟩ recursion).2.printed = ["nil"] ∧
      ((start 0).run ⟨2, 1⟩ recursion).2.printed = ["nil", "nil"] ∧
      ∃ later, ((start 0).run ⟨2, 1⟩ recursion).2.printed = "nil" :: later := by
  have stopped : ((start 0).run ⟨1, 1⟩ recursion).2.ending.runtimeMessage? =
      some "Stack overflow." := by
    rw [run_recursion]
    decide +kernel
  have printed : ((start 0).run ⟨1, 1⟩ recursion).2.printed = ["nil"] := by
    rw [run_recursion]
    decide +kernel
  have ended : ((start 0).run ⟨1, 1⟩ recursion).2.ending ≠ .stopped .unfinished := by
    intro unfinished
    rw [unfinished] at stopped
    cases stopped
  have deeper : (⟨1, 1⟩ : Budget).depth ≤ (⟨2, 1⟩ : Budget).depth := by decide
  obtain ⟨-, later, further, -⟩ :=
    deeper_calls_only_go_on (start 0) recursion deeper ended (.inl (Nat.le_refl 1))
  refine ⟨stopped, printed, ?_, later, ?_⟩
  · rw [run_recursion]
    decide +kernel
  · rw [further, printed, List.singleton_append]

end Session

end LoxLang
