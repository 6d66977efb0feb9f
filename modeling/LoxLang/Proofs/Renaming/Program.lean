import LoxLang.Proofs.Renaming.Bindings
import LoxLang.Proofs.Renaming.Findings
import LoxLang.Proofs.Renaming.Source

/-! # Programs with a renamed declaration

The words of a text that are a declaration, or bound to it, can get a name that is no other
word of the text. Every word is one name at most, so no other name changes. What comes out
is spelled as the declaration is to be understood, and there are no complaints about it.
-/

namespace LoxLang

namespace Program

def roles (program : Program) : List (Occurrence × Role) :=
  Stmt.rolesOfAll program.distances [] program.statements

def isOf (program : Program) (declaration : Occurrence) (place : Nat) : Bool :=
  program.roles.any fun entry =>
    entry.1.place = place && entry.2.isOf declaration.place entry.1

end Program

/-- The text in which a declaration and the references bound to it have another name. -/
def renameLocal (declaration : Occurrence) (name source : String) : String :=
  renamedSource ((Program.ofSource 0 source).isOf declaration) name source

/-- A local variable or parameter of a text without complaints, and an identifier that is
no word of the text. -/
structure Renamable (source : String) (declaration : Occurrence) (name : String) : Prop where
  clean : IsClean source
  isLocal : (declaration, .declares) ∈ (Program.ofSource 0 source).roles
  identifier : Lexeme .identifier .nil name.toList
  fresh : ∀ word ∈ wordsOfSource source, word.lexeme ≠ name

theorem Lexeme.unreserved {name : String} (identifier : Lexeme .identifier .nil name.toList) :
    name ∉ reservedNames := by
  have free : ∀ word : Keyword, word.spelling.toList ≠ name.toList := by
    generalize name.toList = text at identifier
    cases identifier with
    | identifier _ _ free => exact free
  have spelled : (Token.identifier name 0).Spelled :=
    ⟨nofun, fun _ word same => free word (congrArg String.toList same.symm)⟩
  exact spelled.unreserved rfl

/-! ## One name at each place -/

theorem eq_of_countP_le_one {α : Type} {holds : α → Bool} {entries : List α}
    (once : entries.countP holds ≤ 1) {first second : α} (member : first ∈ entries)
    (member' : second ∈ entries) (here : holds first) (here' : holds second) :
    first = second := by
  obtain ⟨earlier, later, rfl⟩ := List.append_of_mem member
  rw [List.countP_append, List.countP_cons_of_pos here] at once
  have none : earlier.countP holds = 0 := by omega
  have none' : later.countP holds = 0 := by omega
  rw [List.countP_eq_zero] at none none'
  obtain before | rfl | behind :=
    (List.mem_append.mp member').imp_right List.mem_cons.mp
  · exact absurd here' (none _ before)
  · rfl
  · exact absurd here' (none' _ behind)

theorem Among.eq_of_place {roles : List (Occurrence × Role)} {start : Nat}
    {tokens : List Token} (among : Among roles (Token.placedFrom start tokens))
    {entry entry' : Occurrence × Role} (member : entry ∈ roles) (member' : entry' ∈ roles)
    (same : entry'.1.place = entry.1.place) : entry' = entry := by
  -- Names are no more than the words, of which one stands at each place.
  have once : (roles.map (·.1)).countP (·.place = entry.1.place) ≤ 1 := by
    refine (among.contained.countP_le _).trans ?_
    change wordsAt entry.1.place (Token.placedFrom start tokens) ≤ 1
    rw [Token.wordsAt_placedFrom]
    split <;> omega
  rw [List.countP_map] at once
  exact eq_of_countP_le_one once member' member (decide_eq_true same) (decide_eq_true rfl)

namespace Program

variable {source : String} (clean : (ofSource 0 source).Clean)

include clean

theorem namesAmong :
    Among (ofSource 0 source).roles (Token.placedFrom 0 (wordsOfSource source)) :=
  (derivable clean).namesAmong []

theorem spelled_of_mem_roles {entry : Occurrence × Role}
    (member : entry ∈ (ofSource 0 source).roles) :
    entry.1.toToken ∈ wordsOfSource source ∧
      (entry.2 ≠ .other → entry.1.lexeme ∉ reservedNames) := by
  have among := namesAmong clean
  have word : entry.1.toToken ∈ wordsOfSource source :=
    Token.of_mem_placedFrom (among.contained.subset (List.mem_map_of_mem member))
  refine ⟨word, fun role => ?_⟩
  exact (Listing.spelled_of_mem_wordsOfSource source _ word).2.unreserved
    (among.kinds entry member role)

theorem isOf_place {declaration : Occurrence} {entry : Occurrence × Role}
    (member : entry ∈ (ofSource 0 source).roles) :
    (ofSource 0 source).isOf declaration entry.1.place =
      entry.2.isOf declaration.place entry.1 := by
  rw [Bool.eq_iff_iff, isOf, List.any_eq_true]
  constructor
  · intro found
    obtain ⟨entry', member', both⟩ := found
    obtain ⟨same, here⟩ := Bool.and_eq_true_iff.mp both
    obtain rfl := (namesAmong clean).eq_of_place member member' (of_decide_eq_true same)
    exact here
  · intro here
    exact ⟨entry, member, Bool.and_eq_true_iff.mpr ⟨decide_eq_true rfl, here⟩⟩

end Program

/-! ## The renamed text -/

namespace Program

variable {place : Nat} {source : String}

theorem Clean.recounted (clean : (ofSource place source).Clean) (place' : Nat) :
    (ofSource place' source).statements =
      Stmt.mapAll (Occurrence.recount place place') (ofSource place source).statements :=
  (clean.move (Occurrence.sameWords_recount place place') clean.lexical
    (Token.recount_placedFrom _ _ _)).2

theorem Clean.findings_recounted (clean : (ofSource place source).Clean) (place' : Nat) :
    (ofSource place' source).findings = (ofSource place source).findings.map
      (Finding.map (Occurrence.recount place place')) := by
  rw [findings, clean.recounted place']
  exact Stmt.findings_mapAll (Occurrence.sameWords_recount place place') _ _ _

theorem clean_of_faultless (lexical : (Listing.ofSource source).faults = [])
    (reading : (ofSource place source).readingFaults = [])
    (binding : Faultless (ofSource place source).findings) : (ofSource place source).Clean :=
  ⟨lexical, reading, binding⟩

end Program

namespace Renamable

variable {source name : String} {declaration : Occurrence}
  (renamable : Renamable source declaration name)

abbrev move (source : String) (declaration : Occurrence) (name : String) :
    Occurrence → Occurrence :=
  Occurrence.renamed ((Program.ofSource 0 source).isOf declaration) name

include renamable

def respelling : Respelling where
  old := declaration.lexeme
  new := name
  oldUnreserved :=
    (Program.spelled_of_mem_roles (renamable.clean.clean 0) renamable.isLocal).2 nofun
  newUnreserved := renamable.identifier.unreserved
  different same :=
    renamable.fresh _
      (Program.spelled_of_mem_roles (renamable.clean.clean 0) renamable.isLocal).1 same.symm

theorem suitAll {move' : Occurrence → Occurrence}
    (lexeme : ∀ word, (move' word).lexeme = (move source declaration name word).lexeme) :
    SuitAll renamable.respelling move' declaration.place (Program.ofSource 0 source).roles := by
  have clean := renamable.clean.clean 0
  intro entry member
  obtain ⟨word, unreserved⟩ := Program.spelled_of_mem_roles clean member
  refine ⟨renamable.fresh _ word, ?spelling, ?here, unreserved⟩
  case spelling =>
    rw [lexeme, move, Occurrence.renamed, Program.isOf_place clean member]
    cases isOf : entry.2.isOf declaration.place entry.1 with
    | false => rfl
    | true =>
        have kind : entry.1.kind = .identifier := by
          apply (Program.namesAmong clean).kinds entry member
          intro other
          rw [other] at isOf
          exact absurd isOf Bool.false_ne_true
        simp [kind]
        rfl
  case here =>
    intro same
    obtain rfl := (Program.namesAmong clean).eq_of_place renamable.isLocal member same
    exact ⟨rfl, rfl⟩

theorem fitsAll {move' : Occurrence → Occurrence}
    (lexeme : ∀ word, (move' word).lexeme = (move source declaration name word).lexeme) :
    Stmt.FitsAll renamable.respelling move' .outside
      (Program.ofSource 0 source).statements := by
  -- The roles are told by what a session knows that has read nothing else.
  obtain ⟨settlement, limit, nothing, fresh⟩ : ∃ settlement : Settlement,
      settlement.limit = 0 ∧ settlement.distances = Distances.empty ∧ settlement.Fresh :=
    ⟨⟨Distances.empty, 0⟩, rfl, rfl, fun place _ => by simp [Distances.get?, Distances.empty]⟩
  have settled :=
    Settlement.settledAll_after fresh (renamable.clean.clean settlement.limit)
  rw [limit] at settled
  have known : (settlement.after (Program.ofSource 0 source)).distances =
      (Program.ofSource 0 source).distances := by
    rw [Settlement.after, nothing]
    rfl
  apply Stmt.fitsAll_of_suits Tracks.topLevel _ settled
  rw [known]
  exact renamable.suitAll lexeme

theorem tokens :
    Token.placedFrom 0 (Listing.ofSource (renameLocal declaration name source)).tokens =
      (Token.placedFrom 0 (Listing.ofSource source).tokens).map
        (move source declaration name) :=
  Listing.tokens_renamedSource renamable.identifier (renamable.clean.clean 0).lexical

theorem ofSource :
    (Program.ofSource 0 (renameLocal declaration name source)).statements =
        Stmt.mapAll (move source declaration name) (Program.ofSource 0 source).statements ∧
      (Program.ofSource 0 (renameLocal declaration name source)).readingFaults = [] := by
  have clean := renamable.clean.clean 0
  obtain ⟨statements, faults⟩ :=
    Program.ofSource_map (Occurrence.sameKinds_renamed _ _) renamable.tokens
  refine ⟨statements, faults.trans ?_⟩
  rw [clean.reading]
  rfl

theorem findings :
    (Program.ofSource 0 (renameLocal declaration name source)).findings =
      (Program.ofSource 0 source).findings.map
        (Finding.map (move source declaration name)) := by
  rw [Program.findings, renamable.ofSource.1]
  exact Stmt.findings_renamedAll Sight.Renames.nil _ _ (renamable.fitsAll fun _ => rfl)
    (renamable.clean.clean 0).binding

theorem renamedClean (place : Nat) :
    (Program.ofSource place (renameLocal declaration name source)).Clean := by
  have clean := renamable.clean.clean 0
  have lexical : (Listing.ofSource (renameLocal declaration name source)).faults = [] :=
    Listing.faults_renamedSource renamable.identifier clean.lexical
  have binding : Faultless
      (Program.ofSource 0 (renameLocal declaration name source)).findings := by
    rw [renamable.findings]
    exact (Finding.faultless_map _).mpr clean.binding
  exact Program.Clean.at (Program.clean_of_faultless lexical renamable.ofSource.2 binding) place

theorem statements (place : Nat) :
    (Program.ofSource place (renameLocal declaration name source)).statements =
      Stmt.mapAll (Occurrence.recount 0 place ∘ move source declaration name)
        (Program.ofSource 0 source).statements := by
  rw [(renamable.renamedClean 0).recounted place, renamable.ofSource.1, Stmt.mapAll_mapAll]

theorem recordAll_findings (place : Nat) (distances : Distances) :
    distances.recordAll (Program.ofSource place (renameLocal declaration name source)).findings =
      distances.recordAll (Program.ofSource place source).findings := by
  have renamed := (renamable.renamedClean 0).findings_recounted place
  rw [renamable.findings] at renamed
  have findings' : (Program.ofSource place (renameLocal declaration name source)).findings =
      (Program.ofSource place source).findings.map (Finding.map
        (Occurrence.renamed (fun there => (Program.ofSource 0 source).isOf declaration
          (there - place)) name)) := by
    rw [renamed, (renamable.clean.clean 0).findings_recounted place, List.map_map,
      List.map_map]
    apply List.map_congr_left
    intro finding _
    rw [Function.comp_apply, Function.comp_apply, Finding.map_map, Finding.map_map,
      Occurrence.recount_comp_renamed]
  rw [findings', Distances.recordAll_map (Occurrence.place_renamed _ _)]

end Renamable

end LoxLang
