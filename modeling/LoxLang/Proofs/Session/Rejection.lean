import LoxLang.Proofs.Session.Program

/-! # Rejected texts

A text with complaints is rejected as a whole: nothing of it is run, and the machine stays
as it is. Its faults are reported in order of their lines, each of them once, and those of
one line in the order in which they were found.
-/

namespace LoxLang

/-! ## The order of reports -/

namespace Diagnostic

/-- The same diagnostics in order of their lines, those of one line as they were given. -/
structure Arranges (given arranged : List Diagnostic) : Prop where
  same : arranged.Perm given
  ordered : arranged.Pairwise fun first second => first.line ≤ second.line
  stable : ∀ line : Nat, (arranged.filter fun diagnostic => diagnostic.line = line) =
    given.filter fun diagnostic => diagnostic.line = line

private theorem line_trans (first second third : Diagnostic) :
    decide (first.line ≤ second.line) → decide (second.line ≤ third.line) →
      decide (first.line ≤ third.line) := by
  simp only [decide_eq_true_eq]
  exact Nat.le_trans

private theorem line_total (first second : Diagnostic) :
    decide (first.line ≤ second.line) || decide (second.line ≤ first.line) := by
  simp only [Bool.or_eq_true, decide_eq_true_eq]
  exact Nat.le_total _ _

theorem arranges_byLine (given : List Diagnostic) : Arranges given (byLine given) where
  same := List.mergeSort_perm _ _
  ordered := (List.pairwise_mergeSort line_trans line_total given).imp of_decide_eq_true
  stable line := by
    have sameLine : (given.filter fun diagnostic => diagnostic.line = line).Pairwise
        fun first second => decide (first.line ≤ second.line) = true := by
      rw [List.pairwise_filter]
      refine List.pairwise_of_forall fun first second => ?_
      simp only [decide_eq_true_eq]
      rintro rfl same
      exact Nat.le_of_eq same.symm
    have kept := (List.sublist_mergeSort line_trans line_total sameLine
      List.filter_sublist).filter fun diagnostic => diagnostic.line = line
    have count := ((List.mergeSort_perm given
      (fun first second => decide (first.line ≤ second.line))).filter
        fun diagnostic => diagnostic.line = line).length_eq
    rw [List.filter_filter] at kept
    simp only [Bool.and_self] at kept
    exact (kept.eq_of_length count.symm).symm

end Diagnostic

/-! ## Rejection -/

namespace Program

def textFaults (program : Program) : List Diagnostic :=
  program.lexicalFaults.map LexicalFault.diagnostic ++
    program.readingFaults.map ReadingFault.diagnostic

def bindingFaults (program : Program) : List Diagnostic :=
  (Finding.faults program.findings).map BindingFault.diagnostic

variable {program : Program}

theorem clean_iff :
    program.Clean ↔ program.textFaults = [] ∧ program.bindingFaults = [] := by
  rw [textFaults, bindingFaults, List.append_eq_nil_iff, List.map_eq_nil_iff,
    List.map_eq_nil_iff, List.map_eq_nil_iff, faults_eq_nil]
  exact ⟨fun clean => ⟨⟨clean.1, clean.2⟩, clean.3⟩, fun none => ⟨none.1.1, none.1.2, none.2⟩⟩

theorem complaints_of_textFaults (faulty : program.textFaults ≠ []) :
    program.complaints = Diagnostic.byLine program.textFaults := by
  have some : program.diagnostics.isEmpty = false := by
    rw [diagnostics, byLine_isEmpty]
    simpa [textFaults] using faulty
  rw [complaints, some]
  rfl

theorem complaints_of_bindingFaults (noText : program.textFaults = []) :
    program.complaints = Diagnostic.byLine program.bindingFaults := by
  have none : program.diagnostics.isEmpty = true := by
    rw [diagnostics, byLine_isEmpty, List.isEmpty_iff]
    exact noText
  rw [complaints, none]
  rfl

end Program

namespace Session

/-- The text is rejected for some faults, and nothing else happens. -/
structure Rejects (session : Session) (faults : List Diagnostic)
    (result : Session × Outcome) : Prop where
  machine : result.1.machine = session.machine
  hadError : result.1.hadError = true
  hadRuntimeError : result.1.hadRuntimeError = session.hadRuntimeError
  printed : result.2.printed = []
  reported : ∃ reported : List Diagnostic, Diagnostic.Arranges faults reported ∧
    result.2.ending = .rejected reported ∧
    result.2.errors = textOfLines (reported.map Diagnostic.text)

variable (session : Session) (budget : Budget) {source : String} {faults : List Diagnostic}

theorem rejects_of_complaints (nonempty : faults ≠ [])
    (complaints : (Program.ofSource session.nextPlace source).complaints =
      Diagnostic.byLine faults) :
    session.Rejects faults (session.run budget source) := by
  have unclean : ¬(Program.ofSource session.nextPlace source).Clean := by
    rw [← Program.complaints_isEmpty_iff, complaints, Program.byLine_isEmpty,
      List.isEmpty_iff]
    exact nonempty
  rw [session.run_of_complaints budget source unclean]
  refine ⟨rfl, rfl, rfl, rfl, _, Diagnostic.arranges_byLine faults, ?_⟩
  rw [← complaints]
  exact ⟨rfl, rfl⟩

theorem rejects_textFaults
    (faulty : (Program.ofSource session.nextPlace source).textFaults ≠ []) :
    session.Rejects (Program.ofSource session.nextPlace source).textFaults
      (session.run budget source) :=
  session.rejects_of_complaints budget faulty (Program.complaints_of_textFaults faulty)

theorem rejects_bindingFaults
    (noText : (Program.ofSource session.nextPlace source).textFaults = [])
    (faulty : (Program.ofSource session.nextPlace source).bindingFaults ≠ []) :
    session.Rejects (Program.ofSource session.nextPlace source).bindingFaults
      (session.run budget source) :=
  session.rejects_of_complaints budget faulty (Program.complaints_of_bindingFaults noText)

end Session

end LoxLang
