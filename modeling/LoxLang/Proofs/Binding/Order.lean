import Mathlib.Data.List.Perm.Subperm
import LoxLang.Proofs.Binding.Regions

/-! # Words in the order of the text

The words mentioned in a tree are some of the tokens that it was read from. The tree does
not list them in the order of the text, because the increment of a loop is read before the
body and executed after it. What is in order everywhere is that a declaration stands
behind all that precedes it in its scope, and before all that follows it there.
-/

namespace LoxLang

def ReferenceKind.wordKind : ReferenceKind → Kind
  | .variable | .assignment => .identifier
  | .this => Keyword.thisWord
  | .super => Keyword.superWord

def Use.wordKind : Use → Kind
  | declares | inherits _ => .identifier
  | refers kind _ => kind.wordKind
  | returns _ => Keyword.returnWord

/-- All that is mentioned first stands before all that is mentioned then. -/
def Mention.Before (first second : List Mention) : Prop :=
  ∀ earlier ∈ first, ∀ later ∈ second, earlier.word.place < later.word.place

def Stmt.declarations (statements : List Stmt) : List Mention :=
  (statements.filterMap Stmt.declared?).map .declaration

mutual

/-- Declarations have a scope to themselves, and stand in it where they take effect. -/
def Stmt.InOrder : Stmt → Prop
  | .block statements => Stmt.InOrderAll statements
  | .classDecl name superclass methods =>
    Mention.Before [.declaration name]
        (Mention.superclass name superclass ++ Routine.mentionsOfMethods methods) ∧
      Routine.InOrderAll methods
  | .expression _ | .print _ | .returns _ _ => True
  | .function routine =>
    Mention.Before [.declaration routine.name] routine.mentions ∧ routine.InOrder
  | .ifThen _ thenBranch none => thenBranch.declared? = none ∧ thenBranch.InOrder
  | .ifThen _ thenBranch (some elseBranch) =>
    (thenBranch.declared? = none ∧ thenBranch.InOrder) ∧
      elseBranch.declared? = none ∧ elseBranch.InOrder
  | .var name initializer =>
    Mention.Before [.declaration name] (Expr.mentionsOfOption (some name) initializer)
  | .whileLoop _ body => body.declared? = none ∧ body.InOrder

def Routine.InOrder : Routine → Prop
  | .mk _ parameters body =>
    parameters.Pairwise (·.place < ·.place) ∧
      Mention.Before (parameters.map .declaration) (Stmt.mentionsOfAll body) ∧
        Stmt.InOrderAll body

def Stmt.InOrderAll : List Stmt → Prop
  | [] => True
  | statement :: rest =>
    statement.InOrder ∧ Stmt.InOrderAll rest ∧
      Mention.Before (statement.declared?.toList.map .declaration)
          (Stmt.mentionsOfAll rest) ∧
        Mention.Before statement.mentions (Stmt.declarations rest)

def Routine.InOrderAll : List Routine → Prop
  | [] => True
  | routine :: rest => routine.InOrder ∧ Routine.InOrderAll rest

end

/-! ## Words taken from tokens -/

structure Reference.Drawn (references : List Reference) (tokens : List Occurrence) :
    Prop where
  contained : List.Subperm (references.map Reference.occurrence) tokens
  kinds : ∀ reference ∈ references, reference.occurrence.kind = reference.kind.wordKind

/-- The words mentioned are some of the tokens, none of which is more than one of them,
and are in order if the tokens stand one behind the other. -/
structure Mention.Drawn (mentions : List Mention) (inOrder : Prop)
    (tokens : List Occurrence) : Prop where
  contained : List.Subperm (mentions.map Mention.word) tokens
  kinds : ∀ mention ∈ mentions, mention.word.kind = mention.use.wordKind
  inOrder : tokens.Pairwise (·.place < ·.place) → inOrder

namespace Reference.Drawn

variable {references references' : List Reference} {tokens tokens' : List Occurrence}

theorem nil (tokens : List Occurrence) : Drawn [] tokens :=
  ⟨List.nil_subperm, List.forall_mem_nil _⟩

theorem append (left : Drawn references tokens) (right : Drawn references' tokens') :
    Drawn (references ++ references') (tokens ++ tokens') where
  contained := by
    rw [List.map_append]
    exact left.contained.append right.contained
  kinds := List.forall_mem_append.mpr ⟨left.kinds, right.kinds⟩

theorem skip (drawn : Drawn references tokens) (word : Occurrence) :
    Drawn references (word :: tokens) :=
  ⟨drawn.contained.cons_right word, drawn.kinds⟩

theorem close (drawn : Drawn references tokens) (word : Occurrence) :
    Drawn references (tokens ++ [word]) := by
  have both := drawn.append (nil [word])
  rwa [List.append_nil] at both

theorem cons (drawn : Drawn references tokens) {word : Occurrence} {kind : ReferenceKind}
    (wordKind : word.kind = kind.wordKind) :
    Drawn (⟨kind, word⟩ :: references) (word :: tokens) where
  contained := (List.subperm_cons word).mpr drawn.contained
  kinds := List.forall_mem_cons.mpr ⟨wordKind, drawn.kinds⟩

theorem single {word : Occurrence} {kind : ReferenceKind}
    (wordKind : word.kind = kind.wordKind) : Drawn [⟨kind, word⟩] [word] :=
  (nil []).cons wordKind

theorem mentions (drawn : Drawn references tokens) (initialized : Option Occurrence) :
    Mention.Drawn (references.map (.ofReference initialized)) True tokens where
  contained := by
    rw [List.map_map]
    exact drawn.contained
  kinds := by
    intro mention member
    obtain ⟨reference, member', rfl⟩ := List.mem_map.mp member
    exact drawn.kinds reference member'
  inOrder _ := trivial

end Reference.Drawn

namespace Mention.Drawn

variable {mentions mentions' : List Mention} {inOrder inOrder' : Prop}
  {tokens tokens' : List Occurrence}

theorem nil (tokens : List Occurrence) : Drawn [] True tokens :=
  ⟨List.nil_subperm, List.forall_mem_nil _, fun _ => trivial⟩

theorem weaken (drawn : Drawn mentions inOrder tokens) (implies : inOrder → inOrder') :
    Drawn mentions inOrder' tokens :=
  ⟨drawn.contained, drawn.kinds, fun increasing => implies (drawn.inOrder increasing)⟩

theorem before (left : Drawn mentions inOrder tokens)
    (right : Drawn mentions' inOrder' tokens')
    (increasing : (tokens ++ tokens').Pairwise (·.place < ·.place)) :
    Before mentions mentions' := by
  intro earlier member later member'
  exact (List.pairwise_append.mp increasing).2.2 earlier.word
    (left.contained.subset (List.mem_map_of_mem member)) later.word
    (right.contained.subset (List.mem_map_of_mem member'))

theorem append (left : Drawn mentions inOrder tokens)
    (right : Drawn mentions' inOrder' tokens') :
    Drawn (mentions ++ mentions') ((inOrder ∧ inOrder') ∧ Before mentions mentions')
      (tokens ++ tokens') where
  contained := by
    rw [List.map_append]
    exact left.contained.append right.contained
  kinds := List.forall_mem_append.mpr ⟨left.kinds, right.kinds⟩
  inOrder increasing := by
    have parts := List.pairwise_append.mp increasing
    exact ⟨⟨left.inOrder parts.1, right.inOrder parts.2.1⟩, left.before right increasing⟩

theorem swap (left : Drawn mentions inOrder tokens)
    (right : Drawn mentions' inOrder' tokens') :
    Drawn (mentions ++ mentions') (inOrder ∧ inOrder') (tokens' ++ tokens) where
  contained := by
    rw [List.map_append]
    exact (left.contained.append right.contained).trans List.perm_append_comm.subperm
  kinds := List.forall_mem_append.mpr ⟨left.kinds, right.kinds⟩
  inOrder increasing := by
    have parts := List.pairwise_append.mp increasing
    exact ⟨left.inOrder parts.2.1, right.inOrder parts.1⟩

theorem skip (drawn : Drawn mentions inOrder tokens) (word : Occurrence) :
    Drawn mentions inOrder (word :: tokens) :=
  ⟨drawn.contained.cons_right word, drawn.kinds,
    fun increasing => drawn.inOrder (List.pairwise_cons.mp increasing).2⟩

theorem close (drawn : Drawn mentions inOrder tokens) (word : Occurrence) :
    Drawn mentions inOrder (tokens ++ [word]) := by
  have both := drawn.append (nil [word])
  rw [List.append_nil] at both
  exact both.weaken fun parts => parts.1.1

theorem cons (drawn : Drawn mentions inOrder tokens) {word : Occurrence} {use : Use}
    (wordKind : word.kind = use.wordKind) :
    Drawn (⟨use, word⟩ :: mentions) (Before [⟨use, word⟩] mentions ∧ inOrder)
      (word :: tokens) := by
  have single : Drawn [⟨use, word⟩] True [word] :=
    ⟨.refl _, by simpa using wordKind, fun _ => trivial⟩
  exact (single.append drawn).weaken fun parts => ⟨parts.2, parts.1.2⟩

theorem tail {mention : Mention} (drawn : Drawn (mention :: mentions) inOrder tokens) :
    Drawn mentions inOrder tokens :=
  ⟨(List.sublist_cons_self _ _).subperm.trans drawn.contained,
    (List.forall_mem_cons.mp drawn.kinds).2, drawn.inOrder⟩

theorem references (drawn : Drawn mentions inOrder tokens) :
    Reference.Drawn (mentions.filterMap Mention.reference?) tokens where
  contained := by
    refine List.Subperm.trans (List.Sublist.subperm ?_) drawn.contained
    induction mentions with
    | nil => exact .slnil
    | cons mention rest induction =>
        rw [List.filterMap_cons]
        cases refers : mention.reference? with
        | none => exact (induction drawn.tail).cons _
        | some reference =>
            rw [List.map_cons, Mention.occurrence_of_reference? refers]
            exact (induction drawn.tail).cons_cons _
  kinds := by
    intro reference member
    rcases List.mem_filterMap.mp member with ⟨mention, mentioned, refers⟩
    have kind := drawn.kinds mention mentioned
    rcases mention with ⟨use, word⟩
    cases use <;> cases refers <;> exact kind

end Mention.Drawn

/-! ## Declarations among the words -/

theorem Stmt.filterMap_declared?_cons (statement : Stmt) (rest : List Stmt) :
    (statement :: rest).filterMap Stmt.declared? =
      statement.declared?.toList ++ rest.filterMap Stmt.declared? := by
  rw [List.filterMap_cons]
  cases statement.declared? <;> rfl

theorem Stmt.declarations_cons (statement : Stmt) (rest : List Stmt) :
    Stmt.declarations (statement :: rest) =
      statement.declared?.toList.map .declaration ++ Stmt.declarations rest := by
  rw [declarations, filterMap_declared?_cons, List.map_append]
  rfl

theorem Stmt.declarations_subset_mentions (statement : Stmt) :
    statement.declared?.toList.map .declaration ⊆ statement.mentions := by
  cases statement <;> simp [Stmt.declared?, Stmt.mentions]

theorem Stmt.declarations_subset (statements : List Stmt) :
    Stmt.declarations statements ⊆ Stmt.mentionsOfAll statements := by
  induction statements with
  | nil => exact List.nil_subset _
  | cons statement rest induction =>
      rw [declarations_cons, mentionsOfAll]
      intro mention member
      rcases List.mem_append.mp member with here | later
      · exact List.mem_append_left _ (declarations_subset_mentions statement here)
      · exact List.mem_append_right _ (induction later)

theorem Stmt.inOrderAll_cons {statement : Stmt} {rest : List Stmt}
    (first : statement.InOrder) (others : Stmt.InOrderAll rest)
    (before : Mention.Before statement.mentions (Stmt.mentionsOfAll rest)) :
    Stmt.InOrderAll (statement :: rest) :=
  ⟨first, others,
    fun earlier member => before earlier (declarations_subset_mentions statement member),
    fun earlier member later member' =>
      before earlier member later (declarations_subset rest member')⟩

theorem Stmt.inOrderAll_pair {first second : Stmt} (one : first.InOrder)
    (other : second.InOrder) (undeclared : first.declared? = none)
    (undeclared' : second.declared? = none) : Stmt.InOrderAll [first, second] := by
  simp [Stmt.InOrderAll, Stmt.declarations, Mention.Before, one, other, undeclared,
    undeclared']

end LoxLang
