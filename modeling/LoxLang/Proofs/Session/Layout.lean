import LoxLang.Proofs.Comparison.Itself
import LoxLang.Proofs.Moved.Session
import LoxLang.Proofs.Reading.Moves
import LoxLang.Proofs.Tree.Words

/-! # Programs in other layouts

A text can be laid out in other lines without becoming another program. As long as its
tokens stay the same, it is read and bound in the same way, and it does the same; only the
lines in its reports are others. The machines that run both layouts have the same routines
but for the lines of their words, which nothing that they do depends on.
-/

namespace LoxLang

/-! ## Words on other lines -/

/-- Texts without faulty pieces that have the same tokens, but perhaps on other lines. -/
structure SameTokens (source source' : String) : Prop where
  faults : (Listing.ofSource source).faults = []
  faults' : (Listing.ofSource source').faults = []
  tokens : (Listing.ofSource source').tokens.map Token.unlined =
    (Listing.ofSource source).tokens.map Token.unlined

namespace Occurrence

def unlined (word : Occurrence) : Occurrence := { word with line := 0 }

def relinedFrom (start : Nat) (tokens : List Token) (word : Occurrence) : Occurrence :=
  if start ≤ word.place then
    { word with line := (tokens[word.place - start]?.map Token.line).getD word.line }
  else word

variable {start : Nat} {tokens : List Token}

theorem sameWords_relinedFrom : SameWords (relinedFrom start tokens) := by
  constructor <;> intro word <;> rw [relinedFrom] <;> split <;> rfl

theorem place_relinedFrom (word : Occurrence) :
    (word.relinedFrom start tokens).place = word.place := by
  rw [relinedFrom]
  split <;> rfl

theorem unlined_relinedFrom : unlined ∘ relinedFrom start tokens = unlined := by
  funext word
  rw [Function.comp_apply, relinedFrom]
  split <;> rfl

theorem spares_relinedFrom : Spares (lowerFrom start 1) (relinedFrom start tokens) := by
  intro word fixed
  have line : (word.lowerFrom start 1).line = word.line := by rw [fixed]
  rw [line_lowerFrom] at line
  split at line
  case isTrue => exact absurd line (Nat.succ_ne_self _)
  case isFalse earlier => exact if_neg earlier

end Occurrence

open Occurrence

theorem Token.relinedFrom_placedFrom (start : Nat) {tokens tokens' : List Token}
    (same : tokens'.map Token.unlined = tokens.map Token.unlined) :
    (placedFrom start tokens).map (relinedFrom start tokens') = placedFrom start tokens' := by
  suffices counted : ∀ earlier : List Token,
      (placedFrom (start + earlier.length) tokens).map
        (relinedFrom start (earlier ++ tokens')) =
      placedFrom (start + earlier.length) tokens' from counted []
  induction tokens generalizing tokens' with
  | nil =>
      rw [List.map_nil, List.map_eq_nil_iff] at same
      rw [same]
      exact fun _ => rfl
  | cons token rest induction =>
      intro earlier
      cases tokens' with
      | nil => exact nomatch same
      | cons token' rest' =>
          obtain ⟨first, later⟩ := List.cons.inj same
          have here : ({ token with line := token'.line } : Token) = token' :=
            congrArg (fun unlined : Token => { unlined with line := token'.line }) first.symm
          have moved : relinedFrom start (earlier ++ token' :: rest')
              ⟨token, start + earlier.length⟩ = ⟨token', start + earlier.length⟩ := by
            rw [relinedFrom, if_pos (Nat.le_add_right _ _)]
            simp only [Nat.add_sub_cancel_left, List.getElem?_append_right (Nat.le_refl _),
              Nat.sub_self, List.getElem?_cons_zero, Option.map_some, Option.getD_some]
            exact congrArg (Occurrence.mk · _) here
          have others := induction later (earlier ++ [token'])
          rw [List.append_assoc, List.length_append, ← Nat.add_assoc] at others
          rw [placedFrom, List.map_cons, moved, placedFrom]
          exact congrArg _ others

/-! ## The same program -/

theorem Program.ofSource_map {move : Occurrence → Occurrence} (same : SameKinds move)
    {place : Nat} {source source' : String}
    (tokens : Token.placedFrom place (Listing.ofSource source').tokens =
      (Token.placedFrom place (Listing.ofSource source).tokens).map move) :
    (ofSource place source').statements =
        Stmt.mapAll move (ofSource place source).statements ∧
      (ofSource place source').readingFaults =
        (ofSource place source).readingFaults.map (ReadingFault.map move) := by
  have parsed := ofTokens_tokens place source'
  rw [tokens, Parsed.ofTokens_map same, ofTokens_tokens] at parsed
  rw [ofSource_eq, ofSource_eq, ← Except.ok.inj parsed]
  exact ⟨rfl, rfl⟩

def Diagnostic.words (diagnostic : Diagnostic) : String × String :=
  (diagnostic.location, diagnostic.message)

namespace SameWords

variable {move : Occurrence → Occurrence} (same : SameWords move)

include same

theorem locationOf (word : Occurrence) :
    Diagnostic.locationOf (move word).toToken = Diagnostic.locationOf word.toToken := by
  rw [Diagnostic.locationOf, Diagnostic.locationOf, same.kind, same.lexeme]

theorem readingFaults (faults : List ReadingFault) :
    ((faults.map (ReadingFault.map move)).map fun fault => fault.diagnostic.words) =
      faults.map fun fault => fault.diagnostic.words := by
  rw [List.map_map]
  apply List.map_congr_left
  intro fault _
  exact congrArg (·, _) (same.locationOf fault.token)

theorem bindingFaults (findings : List Finding) :
    ((Finding.faults (findings.map (Finding.map move))).map
      fun fault => fault.diagnostic.words) =
      (Finding.faults findings).map fun fault => fault.diagnostic.words := by
  rw [Finding.faults, Finding.faults, List.filterMap_map, List.map_filterMap,
    List.map_filterMap]
  apply List.filterMap_congr
  intro finding _
  cases finding with
  | bound => rfl
  | fault fault =>
      exact congrArg (fun location => some (location, _)) (same.locationOf fault.token)

end SameWords

namespace SameTokens

variable {source source' : String} (same : SameTokens source source') (place : Nat)

abbrev move (place : Nat) (source' : String) : Occurrence → Occurrence :=
  relinedFrom place (Listing.ofSource source').tokens

include same

theorem ofSource :
    (Program.ofSource place source').statements =
        Stmt.mapAll (move place source') (Program.ofSource place source).statements ∧
      (Program.ofSource place source').readingFaults =
        (Program.ofSource place source).readingFaults.map
          (ReadingFault.map (move place source')) :=
  Program.ofSource_map sameWords_relinedFrom.sameKinds
    (Token.relinedFrom_placedFrom place same.tokens).symm

theorem findings :
    (Program.ofSource place source').findings =
      (Program.ofSource place source).findings.map (Finding.map (move place source')) := by
  rw [Program.findings, (same.ofSource place).1]
  exact Stmt.findings_mapAll sameWords_relinedFrom _ _ _

theorem clean_iff :
    (Program.ofSource place source').Clean ↔ (Program.ofSource place source).Clean := by
  have reading : (Program.ofSource place source').readingFaults = [] ↔
      (Program.ofSource place source).readingFaults = [] := by
    rw [(same.ofSource place).2, List.map_eq_nil_iff]
  have binding : (∀ fault, .fault fault ∉ (Program.ofSource place source').findings) ↔
      ∀ fault, .fault fault ∉ (Program.ofSource place source).findings := by
    rw [same.findings place]
    exact Finding.faultless_map _
  constructor
  · intro clean
    exact ⟨same.faults, reading.mp clean.reading, binding.mp clean.binding⟩
  · intro clean
    exact ⟨same.faults', reading.mpr clean.reading, binding.mpr clean.binding⟩

theorem recordAll_findings (distances : Distances) :
    distances.recordAll (Program.ofSource place source').findings =
      distances.recordAll (Program.ofSource place source).findings := by
  rw [same.findings place, Distances.recordAll_map place_relinedFrom]

end SameTokens

/-! ## The same run -/

namespace Moved

open Comparison

/-- A machine that is alike to itself while some words are moved is so while others are
moved, if these do not stand in its routines. -/
theorem Setting.Holds.spare {setting : Setting} {machine : Machine}
    (holds : setting.Holds machine machine) (later : Setting)
    (spares : Spares setting.move later.move) (limits : setting.limit ≤ later.limit)
    (before : later.before = #[]) :
    later.Holds { machine with distances := later.distances }
      { machine with distances := later.distances' } := by
  have closures : ∀ closure, setting.Closures closure closure →
      later.Closures closure closure := by
    intro closure same
    exact {
      routine := (Routine.map_of_fixed spares same.routine.symm).symm
      frame := rfl
      isInitializer := rfl
      known := fun reference member =>
        Nat.lt_of_lt_of_le (same.known reference member) limits }
  have values : ∀ value, setting.Values value value → later.Values value value :=
    fun value same => same.itself closures closures
  exact {
    size := rfl
    enclosing := fun _ => rfl
    names := fun frame => (holds.names frame).itself values
    current := rfl
    objects := fun object =>
      rel_itself (holds.objects object) fun _ fields => fields.itself values
    objectCount := rfl
    distances := rfl
    distances' := rfl
    printed := by
      rw [before]
      exact Array.empty_append.symm
    identities := rfl
    clock := rfl }

end Moved

open Moved

def Ending.runtimeMessage? : Ending → Option String
  | .stopped (.error error) => some error.message
  | _ => none

namespace Session

/-- Two runs with the same effects, but perhaps on other lines: both are complete or
neither is, they print and leave behind the same, and if they stop, they stop for the same
reason. -/
structure SameRuns (run run' : Session × Outcome) : Prop where
  isCompleted : run'.2.ending.isCompleted = run.2.ending.isCompleted
  output : run'.2.output = run.2.output
  globalTexts : run'.1.machine.globalTexts = run.1.machine.globalTexts
  runtimeMessage : run'.2.ending.runtimeMessage? = run.2.ending.runtimeMessage?
  unfinished : run'.2.ending = .stopped .unfinished ↔ run.2.ending = .stopped .unfinished
  hadError : run'.1.hadError = run.1.hadError
  hadRuntimeError : run'.1.hadRuntimeError = run.1.hadRuntimeError

variable {session : Session} {source source' : String}

def relining (session : Session) (source source' : String) : Setting where
  move := SameTokens.move session.nextPlace source'
  limit := (session.accept (.ofSource session.nextPlace source)).nextPlace
  distances :=
    (session.accept (.ofSource session.nextPlace source)).machine.distances
  distances' :=
    (session.accept (.ofSource session.nextPlace source)).machine.distances
  before := #[]
  same := Occurrence.sameWords_relinedFrom
  agree word _ := by rw [Occurrence.place_relinedFrom]

theorem sameRuns_conclude {setting : Setting} (before : setting.before = #[])
    {result result' : EStateM.Result Stop Machine Unit}
    (ends : setting.comparison.Ends () (fun _ _ _ => True) result result')
    {session session' : Session} (hadError : session'.hadError = session.hadError)
    (hadRuntimeError : session'.hadRuntimeError = session.hadRuntimeError) :
    SameRuns (session.conclude result) (session'.conclude result') := by
  have printed : ∀ {machine machine' : Machine}, setting.Holds machine machine' →
      textOfLines machine'.printed.toList = textOfLines machine.printed.toList := by
    intro machine machine' holds
    rw [holds.printed, before, Array.empty_append]
  cases ends with
  | ok _ holds _ =>
      exact ⟨rfl, printed holds, (Setting.Holds.globalTexts holds).symm, rfl, Iff.rfl,
        hadError, hadRuntimeError⟩
  | error _ holds stops =>
      cases stops with
      | error _ cause =>
          exact ⟨rfl, printed holds, (Setting.Holds.globalTexts holds).symm, rfl,
            ⟨nofun, nofun⟩, hadError, rfl⟩
      | unfinished =>
          exact ⟨rfl, printed holds, (Setting.Holds.globalTexts holds).symm, rfl,
            Iff.rfl, hadError, rfl⟩
      | defect =>
          exact ⟨rfl, printed holds, (Setting.Holds.globalTexts holds).symm, rfl,
            ⟨nofun, nofun⟩, hadError, rfl⟩

theorem hadErrors_accept (session : Session) (program program' : Program) :
    (session.accept program').hadError = (session.accept program).hadError ∧
      (session.accept program').hadRuntimeError =
        (session.accept program).hadRuntimeError :=
  ⟨rfl, rfl⟩

theorem sameRuns_of_clean (steady : Steady session) (same : SameTokens source source')
    (clean : (Program.ofSource session.nextPlace source).Clean) (budget : Budget) :
    SameRuns (session.run budget source) (session.run budget source') := by
  rw [session.run_of_clean budget source clean,
    session.run_of_clean budget source' ((same.clean_iff _).mpr clean)]
  have known : (session.relining source source').Knows
      (Stmt.referencesOfAll (Program.ofSource session.nextPlace source).statements) :=
    fun reference member => (Program.place_of_mem_references member).2
  have machines : (session.accept (.ofSource session.nextPlace source')).machine =
      (session.accept (.ofSource session.nextPlace source)).machine := by
    simp only [accept, same.recordAll_findings]
  have holds := (steady session.nextPlace 1 (Nat.le_refl _)).spare
    (session.relining source source') Occurrence.spares_relinedFrom
    (Nat.le_add_right _ _) rfl
  have ends := follows_runProgram budget _ known _ _ holds
  rw [(same.ofSource session.nextPlace).1, machines]
  exact sameRuns_conclude rfl ends (hadErrors_accept session _ _).1
    (hadErrors_accept session _ _).2

theorem sameRuns_of_rejected (session : Session) (program program' : Program) :
    SameRuns (session.reject program, ⟨.rejected program.complaints, []⟩)
      (session.reject program', ⟨.rejected program'.complaints, []⟩) :=
  ⟨rfl, rfl, rfl, rfl, ⟨nofun, nofun⟩, rfl, rfl⟩

theorem sameRuns_of_complaints (same : SameTokens source source')
    (unclean : ¬(Program.ofSource session.nextPlace source).Clean) (budget : Budget) :
    SameRuns (session.run budget source) (session.run budget source') := by
  have unclean' := mt (same.clean_iff session.nextPlace).mp unclean
  rw [session.run_of_complaints budget source unclean,
    session.run_of_complaints budget source' unclean']
  exact sameRuns_of_rejected session _ _

end Session

/-- Texts without faulty pieces that differ in the lines of their tokens only are read as
the same trees but for lines, with the same words and messages of faults. The same
references have the same distances, and the faults of bindings have the same words and
messages, in the same order too. And whatever a session has run before, running either
text has the same effects. -/
theorem layout_does_not_matter {source source' : String} (same : SameTokens source source') :
    (∀ place,
      let program := Program.ofSource place source
      let program' := Program.ofSource place source'
      Stmt.mapAll Occurrence.unlined program'.statements =
          Stmt.mapAll Occurrence.unlined program.statements ∧
        (program'.readingFaults.map fun fault => fault.diagnostic.words) =
          (program.readingFaults.map fun fault => fault.diagnostic.words) ∧
        program'.findings.map (Finding.map Occurrence.unlined) =
          program.findings.map (Finding.map Occurrence.unlined) ∧
        (∀ distances : Distances,
          distances.recordAll program'.findings = distances.recordAll program.findings) ∧
        ((Finding.faults program'.findings).map fun fault => fault.diagnostic.words) =
          ((Finding.faults program.findings).map fun fault => fault.diagnostic.words)) ∧
    ∀ (clock : Clock) (history : List (Budget × String)) (budget : Budget),
      let session := (Session.start clock).after history
      Session.SameRuns (session.run budget source) (session.run budget source') := by
  constructor
  · intro place program program'
    obtain ⟨statements, readingFaults⟩ := same.ofSource place
    have findings := same.findings place
    refine ⟨?trees, ?faults, ?bound, same.recordAll_findings place, ?unbound⟩
    case trees =>
      rw [statements, Stmt.mapAll_mapAll, Occurrence.unlined_relinedFrom]
    case faults => rw [readingFaults, Occurrence.sameWords_relinedFrom.readingFaults]
    case bound =>
      rw [findings, List.map_map]
      apply List.map_congr_left
      intro finding _
      rw [Function.comp_apply, Finding.map_map, Occurrence.unlined_relinedFrom]
    case unbound => rw [findings, Occurrence.sameWords_relinedFrom.bindingFaults]
  · intro clock history budget session
    by_cases clean : (Program.ofSource session.nextPlace source).Clean
    · exact Session.sameRuns_of_clean (steady_after clock history) same clean budget
    · exact Session.sameRuns_of_complaints same clean budget

/-- A variable that is not there is missed three lines further down too. -/
theorem layout_does_not_matter_undefined :
    SameTokens "print b;" "print // it\n\n\nb ;" ∧
      ((Session.start 0).run ⟨1, 1⟩ "print // it\n\n\nb ;").2.ending.runtimeMessage? =
        some "Undefined variable 'b'." := by
  have same : SameTokens "print b;" "print // it\n\n\nb ;" :=
    ⟨by cbv, by cbv, by cbv⟩
  have stopped : ((Session.start 0).run ⟨1, 1⟩ "print b;").2 =
      ⟨.stopped (.error ⟨⟨.identifier "b" 1, 1⟩, .undefinedVariable "b"⟩), []⟩ := by cbv
  have runs : Session.SameRuns ((Session.start 0).run ⟨1, 1⟩ "print b;")
      ((Session.start 0).run ⟨1, 1⟩ "print // it\n\n\nb ;") :=
    (layout_does_not_matter same).2 0 [] ⟨1, 1⟩
  refine ⟨same, ?_⟩
  rw [runs.runtimeMessage, stopped]
  rfl

end LoxLang
