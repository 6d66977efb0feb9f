import LoxLang.Proofs.Binding.Walk
import LoxLang.Proofs.Reading.StatementWords
import LoxLang.Proofs.Session.Program

/-! # Binding is exact

Of every source text, whatever faults were noted while it was read, the references are
bound to the nearest regions that know them, and to nothing if no region does. And each
use that makes no sense is found once, and nothing else is found to make none.
-/

namespace LoxLang

/-! ## What is found at one site -/

namespace Site

variable {site : Site}

theorem distance?_eq_some_iff {distance : Nat} :
    site.distance? = some distance ↔ site.BoundAt distance := by
  rw [distance?, List.findIdx?_eq_some_iff_getElem]
  constructor
  · rintro ⟨inside, knows, nearest⟩
    refine ⟨⟨_, List.getElem?_eq_getElem inside, by simpa using knows⟩, ?_⟩
    intro nearer member
    obtain ⟨index, closer, rfl⟩ := List.mem_take_iff_getElem.mp member
    simpa using nearest index (Nat.lt_of_lt_of_le closer (Nat.min_le_left _ _))
  · rintro ⟨⟨region, found, knows⟩, nearest⟩
    obtain ⟨inside, rfl⟩ := List.getElem?_eq_some_iff.mp found
    refine ⟨inside, by simpa using knows, fun index closer => ?_⟩
    have nearer := nearest _ (List.mem_take_iff_getElem.mpr
      ⟨index, Nat.lt_min.mpr ⟨closer, Nat.lt_trans closer inside⟩, rfl⟩)
    simpa using nearer

theorem distance?_eq_none_iff : site.distance? = none ↔ site.Unbound := by
  simp [distance?, Unbound]

theorem mem_faults {fault : BindingFault} :
    fault ∈ site.faults ↔ fault.token = site.word ∧ site.Violates fault.cause := by
  rcases fault with ⟨token, cause⟩
  simp only [faults, List.mem_flatMap]
  constructor
  · rintro ⟨cause', -, member⟩
    split at member
    case isTrue violates =>
      obtain ⟨rfl, rfl⟩ := BindingFault.mk.inj (List.mem_singleton.mp member)
      exact ⟨rfl, violates⟩
    case isFalse => simp at member
  · rintro ⟨rfl, violates⟩
    exact ⟨cause, cause.mem_all, by simp [violates]⟩

theorem nodup_faults (site : Site) : site.faults.Nodup := by
  rw [faults, List.nodup_flatMap]
  constructor
  · intro cause _
    split <;> simp
  · refine BindingCause.nodup_all.imp fun {first second} different => ?_
    intro fault member member'
    simp only [List.mem_ite_nil_right, List.mem_singleton] at member member'
    exact different (congrArg BindingFault.cause (member.2.symm.trans member'.2))

theorem faults_findings (site : Site) : Finding.faults site.findings = site.faults := by
  have bindings : site.bindings.filterMap Finding.fault? = [] := by
    rw [bindings]
    split <;> rfl
  rw [Finding.faults, findings, List.filterMap_append, bindings, List.append_nil,
    List.filterMap_map]
  exact List.filterMap_some

theorem bound_mem_findings {word : Occurrence} {distance : Nat} :
    .bound word distance ∈ site.findings ↔
      site.reference?.isSome ∧ site.word = word ∧ site.BoundAt distance := by
  rw [← distance?_eq_some_iff, findings, List.mem_append, bindings]
  cases site.reference? <;> cases site.distance? <;> simp [eq_comm]

end Site

namespace Token

theorem placedFrom_inOrder (place : Nat) (tokens : List Token) :
    (placedFrom place tokens).Pairwise (·.place < ·.place) ∧
      ∀ word ∈ placedFrom place tokens, place ≤ word.place := by
  induction tokens generalizing place with
  | nil => exact ⟨.nil, List.forall_mem_nil _⟩
  | cons token rest induction =>
      obtain ⟨inOrder, later⟩ := induction (place + 1)
      exact ⟨List.pairwise_cons.mpr ⟨later, inOrder⟩,
        List.forall_mem_cons.mpr ⟨Nat.le_refl _, fun word member =>
          Nat.le_of_succ_le (later word member)⟩⟩

end Token

namespace Program

/-- The words of a program whose use matters, and the regions around them. -/
def sites (program : Program) : List Site := Stmt.sitesOfAll [] program.statements

variable (firstPlace : Nat) (source : String)

theorem proper_mentions :
    ∀ mention ∈ Stmt.mentionsOfAll (ofSource firstPlace source).statements,
      mention.Proper := by
  intro mention member
  have drawn := drawn firstPlace source
  have word := drawn.contained.subset (List.mem_map_of_mem member)
  exact ⟨drawn.kinds mention member,
    (Listing.spelled_of_mem_wordsOfSource source _ (Token.of_mem_placedFrom word)).2⟩

theorem findings_perm : (ofSource firstPlace source).findings.Perm
    ((ofSource firstPlace source).sites.flatMap Site.findings) := by
  have inOrder := (drawn firstPlace source).inOrder (Token.placedFrom_inOrder _ _).1
  have global (names : List Occurrence) : Scopes.defineAll [] names = [] := by
    induction names with
    | nil => rfl
    | cons name rest induction => exact induction
  have follows (names : List Occurrence) (mentions : List Mention) :
      Scopes.Follows [] [] names mentions := by
    intro mention _
    rw [Scopes.upTo, global]
    exact .nil
  exact Stmt.findingsOfAll_perm _ ⟨Scopes.complete_nil, List.forall_mem_nil _, follows _ _,
    proper_mentions firstPlace source⟩ inOrder

theorem sites_pairwise : (ofSource firstPlace source).sites.Pairwise
    (·.word.place ≠ ·.word.place) := by
  obtain ⟨words, perm, sublist⟩ := (drawn firstPlace source).contained
  have inOrder := (Token.placedFrom_inOrder firstPlace (wordsOfSource source)).1
  have different : words.Pairwise (·.place ≠ ·.place) :=
    (inOrder.sublist sublist).imp Nat.ne_of_lt
  rw [perm.pairwise_iff Ne.symm, List.pairwise_map, ← Stmt.toMention_sitesOfAll [],
    List.pairwise_map] at different
  exact different

theorem site_unique {site other : Site} (member : site ∈ (ofSource firstPlace source).sites)
    (member' : other ∈ (ofSource firstPlace source).sites)
    (same : site.word.place = other.word.place) : site = other := by
  have symmetric : Std.Symm fun first second : Site =>
      first.word.place ≠ second.word.place := ⟨fun _ _ => Ne.symm⟩
  by_contra different
  exact (sites_pairwise firstPlace source).forall member member' different same

theorem reference?_sites (program : Program) :
    program.sites.filterMap (·.reference?) = Stmt.referencesOfAll program.statements := by
  rw [← Stmt.reference?_mentionsOfAll, ← Stmt.toMention_sitesOfAll [], List.filterMap_map]
  rfl

theorem boundAt_findings_le_one (place : Nat) :
    boundAt place (ofSource firstPlace source).findings ≤ 1 := by
  refine Nat.le_trans (boundAt_findings firstPlace source place) ?_
  split <;> omega

/-- Bound are the references that some region around them knows. -/
theorem bound_mem_findings {word : Occurrence} {distance : Nat} :
    .bound word distance ∈ (ofSource firstPlace source).findings ↔
      ∃ site ∈ (ofSource firstPlace source).sites,
        site.reference?.isSome ∧ site.word = word ∧ site.BoundAt distance := by
  rw [(findings_perm firstPlace source).mem_iff, List.mem_flatMap]
  exact exists_congr fun site => and_congr_right fun _ => Site.bound_mem_findings

theorem get?_recordAll_findings_of_unbound (distances : Distances) {place : Nat}
    (unbound : ∀ site ∈ (ofSource firstPlace source).sites, site.reference?.isSome →
      site.word.place = place → site.Unbound) :
    (distances.recordAll (ofSource firstPlace source).findings).get? place =
      distances.get? place := by
  refine Distances.get?_recordAll_of_unbound _ (List.countP_eq_zero.mpr ?_)
  intro finding member bound
  cases finding with
  | fault => simp at bound
  | bound word distance =>
      obtain ⟨site, found, refers, rfl, nearest⟩ :=
        (bound_mem_findings firstPlace source).mp member
      have nowhere := Site.distance?_eq_none_iff.mpr
        (unbound site found refers (of_decide_eq_true bound))
      rw [Site.distance?_eq_some_iff.mpr nearest] at nowhere
      cases nowhere

/-- What is recorded at a reference is the distance of the nearest region that knows it, if
there is one. -/
theorem get?_recordAll_findings (distances : Distances) {site : Site}
    (member : site ∈ (ofSource firstPlace source).sites)
    (refers : site.reference?.isSome) :
    (distances.recordAll (ofSource firstPlace source).findings).get? site.word.place =
      site.distance?.or (distances.get? site.word.place) := by
  cases found : site.distance? with
  | some distance =>
      have bound := (bound_mem_findings firstPlace source).mpr
        ⟨site, member, refers, rfl, Site.distance?_eq_some_iff.mp found⟩
      exact Distances.get?_recordAll_of_bound _ bound (boundAt_findings_le_one _ _ _)
  | none =>
      refine get?_recordAll_findings_of_unbound firstPlace source distances ?_
      intro other member' _ same
      obtain rfl := site_unique firstPlace source member' member same
      exact Site.distance?_eq_none_iff.mp found

/-- Every reference is bound to the nearest region around it that knows it, and to none if
no region does. Nothing else is bound. -/
theorem binds_nearest_declaration :
    (ofSource firstPlace source).sites.filterMap (·.reference?) =
        Stmt.referencesOfAll (ofSource firstPlace source).statements ∧
      (∀ site ∈ (ofSource firstPlace source).sites, site.reference?.isSome →
        (∀ distance,
          (ofSource firstPlace source).distances.get? site.word.place = some distance ↔
            site.BoundAt distance) ∧
        ((ofSource firstPlace source).distances.get? site.word.place = none ↔
          site.Unbound)) ∧
      ∀ place distance,
        (ofSource firstPlace source).distances.get? place = some distance →
          ∃ site ∈ (ofSource firstPlace source).sites,
            site.reference?.isSome ∧ site.word.place = place := by
  refine ⟨reference?_sites _, fun site member refers => ?_, ?_⟩
  · have known : (ofSource firstPlace source).distances.get? site.word.place =
        site.distance? :=
      (get?_recordAll_findings firstPlace source .empty member refers).trans Option.or_none
    rw [known]
    exact ⟨fun _ => Site.distance?_eq_some_iff, Site.distance?_eq_none_iff⟩
  · intro place distance found
    by_contra nowhere
    have unbound : (ofSource firstPlace source).distances.get? place = none :=
      get?_recordAll_findings_of_unbound firstPlace source .empty
        fun site member refers here => absurd ⟨site, member, refers, here⟩ nowhere
    rw [unbound] at found
    cases found

def assignment : String := "\x7b var a; \x7b a = b; \x7d \x7d"

def assignmentProgram : Program where
  statements :=
    let name (lexeme : String) (place : Nat) : Occurrence := ⟨.identifier lexeme 1, place⟩
    [.block [.var (name "a" 2) none,
      .block [.expression (.assign (name "a" 5) (.variable (name "b" 7)))]]]
  lexicalFaults := []
  readingFaults := []
  length := 11

theorem ofSource_assignment : ofSource 0 assignment = assignmentProgram := by cbv

/-- The variable is found one block further out, and what it is given is global. -/
theorem binds_nearest_declaration_assignment :
    (ofSource 0 assignment).distances.get? 5 = some 1 ∧
      (ofSource 0 assignment).distances.get? 7 = none := by
  obtain ⟨-, bindings, -⟩ := binds_nearest_declaration 0 assignment
  rw [ofSource_assignment] at bindings ⊢
  let assigned := assignmentProgram.sites.get ⟨1, by decide⟩
  let value := assignmentProgram.sites.get ⟨2, by decide⟩
  constructor
  · refine ((bindings assigned (List.get_mem _ _) rfl).1 1).mpr ?_
    exact Site.distance?_eq_some_iff.mp (by decide)
  · refine (bindings value (List.get_mem _ _) rfl).2.mpr ?_
    exact Site.distance?_eq_none_iff.mp (by decide)

/-- The faults in the bindings of a program are the violations at its sites, each of them
once. -/
theorem finds_every_violation :
    (Finding.faults (ofSource firstPlace source).findings).Nodup ∧
      ∀ fault, fault ∈ Finding.faults (ofSource firstPlace source).findings ↔
        ∃ site ∈ (ofSource firstPlace source).sites,
          fault.token = site.word ∧ site.Violates fault.cause := by
  have sites : (ofSource firstPlace source).sites.flatMap
      (fun site => site.findings.filterMap Finding.fault?) =
        (ofSource firstPlace source).sites.flatMap Site.faults :=
    congrArg (List.flatMap · _) (funext Site.faults_findings)
  have perm : (Finding.faults (ofSource firstPlace source).findings).Perm
      ((ofSource firstPlace source).sites.flatMap Site.faults) := by
    have perm := (findings_perm firstPlace source).filterMap Finding.fault?
    rw [List.filterMap_flatMap] at perm
    exact perm.trans (.of_eq sites)
  constructor
  · rw [perm.nodup_iff, List.nodup_flatMap]
    refine ⟨fun site _ => site.nodup_faults, (sites_pairwise firstPlace source).imp ?_⟩
    intro first second different fault member member'
    have token := (Site.mem_faults.mp member).1.symm.trans (Site.mem_faults.mp member').1
    exact different (congrArg Occurrence.place token)
  · intro fault
    rw [perm.mem_iff, List.mem_flatMap]
    exact exists_congr fun site => and_congr_right fun _ => Site.mem_faults

end Program

end LoxLang
