import LoxLang.Proofs.Moved.Session
import LoxLang.Proofs.Session.Rejection

/-! # Texts read in vain

Of a rejected text nothing is left but that its words have taken up places. A session
that has read more such texts does the same as one that has not, only that its words
stand at later places.
-/

namespace LoxLang

/-! ## Words at other places -/

namespace Occurrence

def relocate (place : Nat → Nat) (word : Occurrence) : Occurrence :=
  { word with place := place word.place }

theorem sameWords_relocate (place : Nat → Nat) : SameWords (relocate place) :=
  ⟨fun _ => rfl, fun _ => rfl, fun _ => rfl⟩

end Occurrence

open Occurrence

theorem Distances.get?_recordAll_relocate {place : Nat → Nat} {limit : Nat}
    (injective : ∀ first < limit, ∀ second < limit, place first = place second →
      first = second) {findings : List Finding}
    (below : ∀ reference distance, .bound reference distance ∈ findings →
      reference.place < limit) {distances distances' : Distances}
    (agree : ∀ other < limit, distances'.get? (place other) = distances.get? other) :
    ∀ other < limit,
      (distances'.recordAll (findings.map (Finding.map (relocate place)))).get?
        (place other) = (distances.recordAll findings).get? other := by
  induction findings generalizing distances distances' with
  | nil => exact agree
  | cons finding rest induction =>
      have belowRest : ∀ reference distance, .bound reference distance ∈ rest →
          reference.place < limit := fun reference distance member =>
        below reference distance (List.mem_cons_of_mem _ member)
      cases finding with
      | fault found => exact induction belowRest agree
      | bound reference distance =>
          have known := below reference distance List.mem_cons_self
          refine induction belowRest fun other inside => ?_
          change (distances'.record (place reference.place) distance).get? _ =
            (distances.record reference.place distance).get? other
          rw [get?_record, get?_record, agree other inside]
          by_cases same : reference.place = other
          · rw [if_pos same, if_pos (congrArg place same)]
          · rw [if_neg same, if_neg fun moved => same (injective _ known _ inside moved)]

namespace Program

variable {start : Nat} {source : String}

theorem place_of_mem_findings {reference : Occurrence} {distance : Nat}
    (bound : .bound reference distance ∈ (ofSource start source).findings) :
    start ≤ reference.place ∧
      reference.place < start + (ofSource start source).length := by
  have positive := boundAt_pos bound
  have counted := boundAt_findings start source reference.place
  split at counted
  case isTrue inside => exact inside
  case isFalse => omega

theorem Clean.relocated (clean : (ofSource start source).Clean) {start' : Nat}
    {place : Nat → Nat} (moved : ∀ other, start ≤ other →
      other < start + (ofSource start source).length → place other = other - start + start') :
    (ofSource start' source).Clean ∧
      (ofSource start' source).statements =
        Stmt.mapAll (relocate place) (ofSource start source).statements ∧
      (ofSource start' source).findings =
        (ofSource start source).findings.map (Finding.map (relocate place)) := by
  have words : (Token.placedFrom start (wordsOfSource source)).map (relocate place) =
      Token.placedFrom start' (wordsOfSource source) := by
    rw [← Token.recount_placedFrom start start']
    refine List.map_congr_left fun word member => ?_
    have inside := Token.place_of_mem_placedFrom member
    rw [← length_eq] at inside
    rw [Occurrence.relocate, recount, moved _ inside.1 inside.2]
  rcases clean.move (sameWords_relocate place) clean.lexical words with
    ⟨clean', statements⟩
  refine ⟨clean', statements, ?_⟩
  rw [findings, statements]
  exact Stmt.findings_mapAll (sameWords_relocate place) _ _ _

end Program

/-! ## Sessions that have read more -/

namespace Moved

open Comparison

def relocating (place : Nat → Nat) (limit : Nat) {distances distances' : Distances}
    (agree : ∀ other < limit, distances'.get? (place other) = distances.get? other) :
    Setting where
  move := relocate place
  limit := limit
  distances := distances
  distances' := distances'
  before := #[]
  same := sameWords_relocate place
  agree word known := agree word.place known

theorem Setting.Holds.settleRelocated {place : Nat → Nat} {limit limit' : Nat}
    {distances distances' later later' : Distances} {machine machine' : Machine}
    {agree : ∀ other < limit, distances'.get? (place other) = distances.get? other}
    (holds : (relocating place limit agree).Holds machine machine')
    (limits : limit ≤ limit')
    (agreeLater : ∀ other < limit', later'.get? (place other) = later.get? other)
    (printed : Array String) :
    (relocating place limit' agreeLater).Holds
      { machine with distances := later, printed }
      { machine' with distances := later', printed } := by
  have settled := holds.settle (relocating place limit' agreeLater) rfl limits printed
  change (relocating place limit' agreeLater).Holds _
    { machine' with distances := later', printed := #[] ++ printed } at settled
  rwa [Array.empty_append] at settled

/-- The second session may have read more texts than the first, of which nothing is left.
The words that the first knows stand at other places in the second. -/
structure Behind (session session' : Session) (place : Nat → Nat) : Prop where
  inside : ∀ other < session.nextPlace, place other < session'.nextPlace
  injective : ∀ first < session.nextPlace, ∀ second < session.nextPlace,
    place first = place second → first = second
  fresh : session.settlement.Fresh
  fresh' : session'.settlement.Fresh
  agree : ∀ other < session.nextPlace,
    session'.machine.distances.get? (place other) = session.machine.distances.get? other
  alike : ∀ place', (∀ other < session.nextPlace, place' other = place other) →
    ∀ agree, (@relocating place' session.nextPlace session.machine.distances
      session'.machine.distances agree).Holds session.machine session'.machine

theorem behind_start (clock : Clock) : Behind (.start clock) (.start clock) id where
  inside _ := id
  injective _ _ _ _ := id
  fresh _ _ := rfl
  fresh' _ _ := rfl
  agree _ _ := rfl
  alike place' _ agree := holds_initial (relocating place' 0 agree) rfl rfl rfl clock

inductive Alike : Outcome → Outcome → Prop
  | completed (printed : List String) : Alike ⟨.completed, printed⟩ ⟨.completed, printed⟩
  | error {word word' : Occurrence} (same : word'.toToken = word.toToken)
      (cause : RuntimeCause) (printed : List String) :
      Alike ⟨.stopped (.error ⟨word, cause⟩), printed⟩
        ⟨.stopped (.error ⟨word', cause⟩), printed⟩
  | unfinished (printed : List String) :
      Alike ⟨.stopped .unfinished, printed⟩ ⟨.stopped .unfinished, printed⟩
  | defect (defect : Defect) (printed : List String) :
      Alike ⟨.stopped (.defect defect), printed⟩ ⟨.stopped (.defect defect), printed⟩

namespace Behind

variable {session session' : Session} {place : Nat → Nat} {source : String}

theorem reject (behind : Behind session session' place) (program : Program) :
    Behind session (session'.reject program) place :=
  { behind with
    inside := fun other known =>
      Nat.lt_of_lt_of_le (behind.inside other known) (Nat.le_add_right _ _)
    fresh' := fun other later =>
      behind.fresh' other (Nat.le_trans (Nat.le_add_right _ _) later) }

def extend (place : Nat → Nat) (start start' other : Nat) : Nat :=
  if other < start then place other else other - start + start'

theorem extend_of_lt {start start' other : Nat} (earlier : other < start) :
    extend place start start' other = place other := if_pos earlier

theorem extend_of_le {start start' other : Nat} (later : start ≤ other) :
    extend place start start' other = other - start + start' :=
  if_neg (Nat.not_lt.mpr later)

theorem injective_extend (behind : Behind session session' place) :
    Function.Injective (extend place session.nextPlace session'.nextPlace) := by
  intro first second same
  rcases Nat.lt_or_ge first session.nextPlace with earlier | later <;>
    rcases Nat.lt_or_ge second session.nextPlace with earlier' | later'
  · rw [extend_of_lt earlier, extend_of_lt earlier'] at same
    exact behind.injective _ earlier _ earlier' same
  · rw [extend_of_lt earlier, extend_of_le later'] at same
    have inside := behind.inside _ earlier
    omega
  · rw [extend_of_le later, extend_of_lt earlier'] at same
    have inside := behind.inside _ earlier'
    omega
  · rw [extend_of_le later, extend_of_le later'] at same
    omega

theorem agree_extend (behind : Behind session session' place) (other : Nat) :
    session'.machine.distances.get?
        (extend place session.nextPlace session'.nextPlace other) =
      session.machine.distances.get? other := by
  rcases Nat.lt_or_ge other session.nextPlace with earlier | later
  · rw [extend_of_lt earlier]
    exact behind.agree other earlier
  · rw [extend_of_le later]
    exact (behind.fresh' _ (Nat.le_add_left _ _)).trans (behind.fresh other later).symm

theorem accept (behind : Behind session session' place)
    (clean : (Program.ofSource session.nextPlace source).Clean) :
    Behind (session.accept (.ofSource session.nextPlace source))
      (session'.accept (.ofSource session'.nextPlace source))
      (extend place session.nextPlace session'.nextPlace) := by
  have moved := clean.relocated fun other later _ =>
    @extend_of_le place session.nextPlace session'.nextPlace other later
  have known : ∀ reference distance,
      .bound reference distance ∈ (Program.ofSource session.nextPlace source).findings →
        reference.place <
          session.nextPlace + (Program.ofSource session.nextPlace source).length :=
    fun reference distance bound => (Program.place_of_mem_findings bound).2
  refine ⟨fun other inside => ?_, fun _ _ _ _ same => behind.injective_extend same,
    behind.fresh.after source, behind.fresh'.after source, ?_, ?_⟩
  · change other < session.nextPlace + _ at inside
    change _ < session'.nextPlace + _
    rw [Program.length_eq] at inside ⊢
    rcases Nat.lt_or_ge other session.nextPlace with earlier | later
    · rw [extend_of_lt earlier]
      exact Nat.lt_add_right _ (behind.inside other earlier)
    · rw [extend_of_le later]
      omega
  · change ∀ other < _, (session'.machine.distances.recordAll _).get? _ = _
    rw [moved.2.2]
    exact Distances.get?_recordAll_relocate
      (fun _ _ _ _ same => behind.injective_extend same) known
      fun other _ => behind.agree_extend other
  · intro place' same agree
    have earlier : ∀ other < session.nextPlace, place' other = place other := by
      intro other inside
      rw [same other (Nat.lt_add_right _ inside), extend_of_lt inside]
    have holds := behind.alike place' earlier fun other inside => by
      rw [earlier other inside, behind.agree other inside]
    have printed : session'.machine.printed = session.machine.printed :=
      holds.printed.trans Array.empty_append
    have settled := holds.settleRelocated (Nat.le_add_right _ _) agree
      session.machine.printed
    change (relocating place' _ agree).Holds _
      { session'.machine with distances := _, printed := session'.machine.printed }
    rw [printed]
    exact settled

theorem finish (behind : Behind session session' place) {machine machine' : Machine}
    (holds : ∀ place', (∀ other < session.nextPlace, place' other = place other) →
      ∀ agree, (@relocating place' session.nextPlace session.machine.distances
        session'.machine.distances agree).Holds machine machine')
    (hadError hadError' failed failed' : Bool) :
    Behind ⟨machine.takePrinted.2, session.nextPlace, hadError, failed⟩
      ⟨machine'.takePrinted.2, session'.nextPlace, hadError', failed'⟩ place := by
  have distances := (holds place (fun _ _ => rfl) behind.agree).distances
  have distances' := (holds place (fun _ _ => rfl) behind.agree).distances'
  change machine.distances = session.machine.distances at distances
  change machine'.distances = session'.machine.distances at distances'
  refine ⟨behind.inside, behind.injective, ?_, ?_, ?_, ?_⟩
  · intro other later
    exact (congrArg (Distances.get? · other) distances).trans (behind.fresh other later)
  · intro other later
    exact (congrArg (Distances.get? · other) distances').trans (behind.fresh' other later)
  · change ∀ other < _, machine'.distances.get? _ = machine.distances.get? _
    rw [distances, distances']
    exact behind.agree
  · intro place' same agree
    change ∀ other < _, machine'.distances.get? _ = machine.distances.get? _ at agree
    have known := agree
    rw [distances, distances'] at known
    exact (holds place' same known).settleRelocated (Nat.le_refl _) agree #[]

theorem conclude (behind : Behind session session' place)
    {result result' : EStateM.Result Stop Machine Unit}
    (ends : ∀ place', (∀ other < session.nextPlace, place' other = place other) →
      ∀ agree, (@relocating place' session.nextPlace session.machine.distances
        session'.machine.distances agree).comparison.Ends () (fun _ _ _ => True)
          result result') :
    Behind (session.conclude result).1 (session'.conclude result').1 place ∧
      Alike (session.conclude result).2 (session'.conclude result').2 := by
  have ended := ends place (fun _ _ => rfl) behind.agree
  have printed : ∀ {machine machine' : Machine},
      (relocating place _ behind.agree).Holds machine machine' →
        machine'.takePrinted.1 = machine.takePrinted.1 := by
    intro machine machine' holds
    exact congrArg Array.toList (holds.printed.trans Array.empty_append)
  cases ended with
  | @ok _ _ _ machine machine' _ holds _ =>
      refine ⟨behind.finish (fun place' same agree => ?_) _ _ _ _, ?_⟩
      · cases ends place' same agree with
        | ok _ holds _ => exact holds
      · simp only [Session.conclude, printed holds]
        exact .completed _
  | @error _ _ _ machine machine' _ holds stops =>
      refine ⟨behind.finish (fun place' same agree => ?_) _ _ _ _, ?_⟩
      · cases ends place' same agree with
        | error _ holds _ => exact holds
      · simp only [Session.conclude, printed holds]
        cases stops with
        | error same cause =>
            refine .error ?_ cause _
            rw [show _ = relocate place _ from same]
            rfl
        | unfinished => exact .unfinished _
        | defect _ defect => exact .defect defect _

theorem run (behind : Behind session session' place) (budget : Budget)
    (clean : (Program.ofSource session.nextPlace source).Clean) :
    (∃ place', Behind (session.run budget source).1 (session'.run budget source).1 place') ∧
      Alike (session.run budget source).2 (session'.run budget source).2 := by
  have moved := clean.relocated fun other later _ =>
    @extend_of_le place session.nextPlace session'.nextPlace other later
  rw [session.run_of_clean budget source clean,
    session'.run_of_clean budget source moved.1]
  have accepted := behind.accept clean
  have concluded := accepted.conclude fun place' same agree => by
    have ends := follows_runProgram budget
      (Program.ofSource session.nextPlace source).statements
      (fun reference member => (Program.place_of_mem_references member).2)
      _ _ (accepted.alike place' same agree)
    have movedThere := clean.relocated fun other later inside =>
      (same other inside).trans (extend_of_le later)
    rwa [show (relocating place' _ agree).move = relocate place' from rfl,
      ← movedThere.2.1] at ends
  exact ⟨⟨_, concluded.1⟩, concluded.2⟩

end Behind

end Moved

/-! ## Histories with and without rejected texts -/

instance : DecidablePred IsClean := fun source =>
  inferInstanceAs (Decidable ((Program.ofSource 0 source).complaints = []))

theorem isClean_iff (place : Nat) (source : String) :
    IsClean source ↔ (Program.ofSource place source).Clean := by
  rw [IsClean, ← List.isEmpty_iff, Program.complaints_isEmpty_iff]
  exact ⟨fun clean => clean.at place, fun clean => clean.at 0⟩

namespace Session

open Moved

def outcomes (session : Session) : List (Budget × String) → List Outcome
  | [] => []
  | (budget, source) :: rest =>
    (session.run budget source).2 :: (session.run budget source).1.outcomes rest

def cleanTexts (history : List (Budget × String)) : List (Budget × String) :=
  history.filter fun text => IsClean text.2

def cleanOutcomes (session : Session) (history : List (Budget × String)) :
    List Outcome :=
  ((history.zip (session.outcomes history)).filter fun entry => IsClean entry.1.2).map
    (·.2)

/-- Without the rejected texts the others do what they did with them. -/
theorem outcomes_of_behind {session session' : Session} {place : Nat → Nat}
    (behind : Behind session session' place) (history : List (Budget × String)) :
    List.Forall₂ Alike (session.outcomes (cleanTexts history))
        (session'.cleanOutcomes history) ∧
      ∃ place', Behind (session.after (cleanTexts history)) (session'.after history)
        place' := by
  induction history generalizing session session' place with
  | nil => exact ⟨.nil, place, behind⟩
  | cons text rest induction =>
      rcases text with ⟨budget, source⟩
      by_cases clean : IsClean source
      · have here := (isClean_iff session.nextPlace source).mp clean
        rcases behind.run budget here with ⟨⟨place', later⟩, alike⟩
        rcases induction later with ⟨outcomes, behindAfter⟩
        have kept : cleanTexts ((budget, source) :: rest) =
            (budget, source) :: cleanTexts rest :=
          List.filter_cons_of_pos (decide_eq_true clean)
        have reported : session'.cleanOutcomes ((budget, source) :: rest) =
            (session'.run budget source).2 ::
              (session'.run budget source).1.cleanOutcomes rest := by
          simp [cleanOutcomes, Session.outcomes, clean]
        rw [kept, reported]
        exact ⟨.cons alike outcomes, behindAfter⟩
      · have here := (isClean_iff session'.nextPlace source).not.mp clean
        have kept : cleanTexts ((budget, source) :: rest) = cleanTexts rest :=
          List.filter_cons_of_neg (by simpa using clean)
        have reported : session'.cleanOutcomes ((budget, source) :: rest) =
            (session'.run budget source).1.cleanOutcomes rest := by
          simp [cleanOutcomes, Session.outcomes, clean]
        have rejected := congrArg Prod.fst (session'.run_of_complaints budget source here)
        have later := behind.reject (.ofSource session'.nextPlace source)
        rw [kept, reported]
        change _ ∧ ∃ place', Behind _ ((session'.run budget source).1.after rest) place'
        rw [rejected]
        exact induction later

/-- A text with faults is rejected for the faults of the first stage that has some, and
nothing else happens. So the other texts of a session do what they would do without the
rejected texts, and leave the same global names with the same values. -/
theorem rejects_without_trace :
    (∀ (session : Session) (budget : Budget) (source : String),
      let program := Program.ofSource session.nextPlace source
      (program.textFaults ≠ [] →
        session.Rejects program.textFaults (session.run budget source)) ∧
      (program.textFaults = [] → program.bindingFaults ≠ [] →
        session.Rejects program.bindingFaults (session.run budget source)) ∧
      (IsClean source ↔ program.textFaults = [] ∧ program.bindingFaults = [])) ∧
    ∀ (clock : Clock) (history : List (Budget × String)),
      List.Forall₂ Alike ((start clock).outcomes (cleanTexts history))
        ((start clock).cleanOutcomes history) ∧
      ((start clock).after history).machine.globalTexts =
        ((start clock).after (cleanTexts history)).machine.globalTexts := by
  refine ⟨fun session budget source => ⟨session.rejects_textFaults budget,
    session.rejects_bindingFaults budget, (isClean_iff _ _).trans Program.clean_iff⟩,
    fun clock history => ?_⟩
  rcases outcomes_of_behind (behind_start clock) history with ⟨outcomes, place, behind⟩
  exact ⟨outcomes, ((behind.alike place (fun _ _ => rfl) behind.agree).globalTexts).symm⟩

end Session

end LoxLang
