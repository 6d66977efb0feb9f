import Mathlib.Data.List.Perm.Subperm
import LoxLang.Machine.Basic
import LoxLang.Proofs.Grammar.Regular

/-! # What the names in a program stand for

A name declares a local variable or parameter, or it refers to a variable, or it is
something else: the name of a global, a function, a class or a property. Which declaration
a reference is bound to is told by the distance that is recorded for it. It counts the
scopes around the reference, and in each of them the declarations up to there are known.
-/

namespace LoxLang

inductive Role where
  | declares
  /-- A variable that is read or assigned, with the declaration of the name that it is
  bound to. It has none if the name is global. -/
  | refers (declaration : Option Occurrence)
  | other

/-- The declarations of names in the local scopes around a place, the innermost first. -/
abbrev Origins := List (Bindings Occurrence)

namespace Origins

def declare (origins : Origins) (name : Occurrence) : Origins :=
  match origins with
  | [] => []
  | innermost :: outer => innermost.bind name.lexeme name :: outer

def nest (origins : Origins) (names : List Occurrence) : Origins :=
  names.foldl declare (Bindings.empty :: origins)

def insideClass (origins : Origins) : Option Occurrence → Origins
  | none => origins.nest []
  | some _ => (origins.nest []).nest []

def of? (distances : Distances) (origins : Origins) (reference : Occurrence) :
    Option Occurrence :=
  (distances.get? reference.place).bind fun distance =>
    origins[distance]?.bind (·.get? reference.lexeme)

end Origins

/-! ## The names of a tree -/

section Roles

variable (distances : Distances)

def Role.ofReference (origins : Origins) (name : Occurrence) : Occurrence × Role :=
  (name, .refers (origins.of? distances name))

mutual

def Expr.roles (origins : Origins) : Expr → List (Occurrence × Role)
  | .assign name value => Role.ofReference distances origins name :: value.roles origins
  | .binary left _ _ right | .logical left _ _ right =>
    left.roles origins ++ right.roles origins
  | .call callee _ arguments => callee.roles origins ++ Expr.rolesOfAll origins arguments
  | .get object name => object.roles origins ++ [(name, .other)]
  | .grouping inner => inner.roles origins
  | .literal _ => []
  | .set object name value => object.roles origins ++ (name, .other) :: value.roles origins
  | .super keyword method => [(keyword, .other), (method, .other)]
  | .this keyword => [(keyword, .other)]
  | .unary _ _ right => right.roles origins
  | .variable name => [Role.ofReference distances origins name]

def Expr.rolesOfAll (origins : Origins) : List Expr → List (Occurrence × Role)
  | [] => []
  | expression :: rest => expression.roles origins ++ Expr.rolesOfAll origins rest

end

def Expr.rolesOfOption (origins : Origins) : Option Expr → List (Occurrence × Role)
  | none => []
  | some expression => expression.roles distances origins

def Role.ofVariable (origins : Origins) : Role :=
  match origins with
  | [] => .other
  | _ :: _ => .declares

def Stmt.originsAfter (origins : Origins) (statement : Stmt) : Origins :=
  match statement.declared? with
  | some name => origins.declare name
  | none => origins

mutual

def Stmt.roles (origins : Origins) : Stmt → List (Occurrence × Role)
  | .block statements => Stmt.rolesOfAll (origins.nest []) statements
  | .classDecl name superclass methods =>
    (name, .other) ::
      ((superclass.toList.map (Role.ofReference distances (origins.declare name))) ++
        Routine.rolesOfAll ((origins.declare name).insideClass superclass) methods)
  | .expression inner | .print inner => inner.roles distances origins
  | .function routine => routine.roles (origins.declare routine.name)
  | .ifThen condition thenBranch none =>
    condition.roles distances origins ++ thenBranch.roles origins
  | .ifThen condition thenBranch (some elseBranch) =>
    condition.roles distances origins ++
      (thenBranch.roles origins ++ elseBranch.roles origins)
  | .returns _ value => Expr.rolesOfOption distances origins value
  | .var name initializer =>
    (name, Role.ofVariable origins) ::
      Expr.rolesOfOption distances (origins.declare name) initializer
  | .whileLoop condition body => condition.roles distances origins ++ body.roles origins

def Routine.roles (origins : Origins) : Routine → List (Occurrence × Role)
  | .mk name parameters body =>
    (name, .other) ::
      (parameters.map (·, .declares) ++ Stmt.rolesOfAll (origins.nest parameters) body)

def Stmt.rolesOfAll (origins : Origins) : List Stmt → List (Occurrence × Role)
  | [] => []
  | statement :: rest =>
    statement.roles origins ++ Stmt.rolesOfAll (statement.originsAfter origins) rest

def Routine.rolesOfAll (origins : Origins) : List Routine → List (Occurrence × Role)
  | [] => []
  | routine :: rest => routine.roles origins ++ Routine.rolesOfAll origins rest

end

end Roles

/-! ## Names are words of the text -/

/-- The names are some of the words, and none of the words is more than one name. What is
declared or referred to is an identifier. -/
structure Among (roles : List (Occurrence × Role)) (words : List Occurrence) : Prop where
  contained : List.Subperm (roles.map (·.1)) words
  kinds : ∀ entry ∈ roles, entry.2 ≠ .other → entry.1.kind = .identifier

namespace Among

variable {roles roles' : List (Occurrence × Role)} {words words' : List Occurrence}

theorem nil (words : List Occurrence) : Among [] words :=
  ⟨List.nil_subperm, List.forall_mem_nil _⟩

theorem append (left : Among roles words) (right : Among roles' words') :
    Among (roles ++ roles') (words ++ words') where
  contained := by
    rw [List.map_append]
    exact left.contained.append right.contained
  kinds := List.forall_mem_append.mpr ⟨left.kinds, right.kinds⟩

theorem swap (left : Among roles words) (right : Among roles' words') :
    Among (roles ++ roles') (words' ++ words) where
  contained := (left.append right).contained.trans List.perm_append_comm.subperm
  kinds := (left.append right).kinds

theorem skip (among : Among roles words) (word : Occurrence) : Among roles (word :: words) :=
  ⟨among.contained.cons_right word, among.kinds⟩

theorem cons (among : Among roles words) {name : Occurrence} {role : Role}
    (kind : role ≠ .other → name.kind = .identifier) :
    Among ((name, role) :: roles) (name :: words) where
  contained := (List.subperm_cons name).mpr among.contained
  kinds := List.forall_mem_cons.mpr ⟨kind, among.kinds⟩

theorem close (among : Among roles words) (word : Occurrence) :
    Among roles (words ++ [word]) := by
  have both := among.append (nil [word])
  rwa [List.append_nil] at both

end Among

namespace Grammar

variable {distances : Distances}

section Expressions

def ExpressionPhrase.NamesAmong (distances : Distances) (words : List Occurrence) :
    (phrase : ExpressionPhrase) → phrase.Tree → Prop
  | .expression, tree | .joined _, tree | .operand _, tree | .unary, tree | .call, tree
  | .primary, tree => ∀ origins, Among (Expr.roles distances origins tree) words
  | .arguments, trees | .furtherArguments, trees =>
    ∀ origins, Among (Expr.rolesOfAll distances origins trees) words

theorem Expression.namesAmong {phrase : ExpressionPhrase} {tokens : List Occurrence}
    {tree : phrase.Tree} (derivation : Expression phrase tokens tree) :
    phrase.NamesAmong distances tokens tree := by
  induction derivation with
  | assignVariable nameKind _ _ value =>
      intro origins
      exact ((value origins).skip _).cons fun _ => nameKind
  | assignProperty _ _ _ _ _ object value =>
      intro origins
      exact (object origins).append ((((value origins).skip _).cons (absurd rfl)).skip _)
  | @further _ _ word _ _ _ _ _ wordKind _ left right =>
      intro origins
      have both := (left origins).append ((right origins).skip word)
      obtain ⟨operator, rfl⟩ | ⟨operator, rfl⟩ := build_of_mem_operators wordKind
      · exact both
      · exact both
  | unassigned _ names | single _ names | conjunction _ names | equality _ names
  | comparison _ names | term _ names | factor _ names | unary _ names | call _ names
  | primary _ names => exact names
  | unaryOperator _ _ right => exact fun origins => (right origins).skip _
  | callArguments _ _ _ _ _ callee arguments =>
      intro origins
      exact (callee origins).append (((arguments origins).close _).skip _)
  | callProperty _ _ _ object =>
      intro origins
      exact (object origins).append (((Among.nil []).cons (absurd rfl)).skip _)
  | falseLiteral | trueLiteral | nilLiteral | number | string => exact fun _ => .nil _
  | super =>
    exact fun _ => (((Among.nil []).cons (absurd rfl)).skip _).cons (absurd rfl)
  | this => exact fun _ => (Among.nil []).cons (absurd rfl)
  | «variable» nameKind => exact fun _ => (Among.nil []).cons fun _ => nameKind
  | grouping _ _ _ inner => exact fun origins => ((inner origins).close _).skip _
  | noArguments | noFurtherArguments => exact fun _ => .nil _
  | someArguments _ _ argument others =>
    exact fun origins => (argument origins).append (others origins)
  | furtherArgument _ _ _ argument others =>
    exact fun origins => ((argument origins).append (others origins)).skip _

end Expressions

/-! ## Statements -/

section Clauses

variable {tokens : List Occurrence}

theorem OptionalExpression.namesAmong {found : Option Expr}
    (phrase : OptionalExpression tokens found) (origins : Origins) :
    Among (Expr.rolesOfOption distances origins found) tokens := by
  cases phrase with
  | absent => exact .nil _
  | present phrase => exact phrase.namesAmong origins

theorem InitializerClause.namesAmong {found : Option Expr}
    (phrase : InitializerClause tokens found) (origins : Origins) :
    Among (Expr.rolesOfOption distances origins found) tokens := by
  cases phrase with
  | absent => exact .nil _
  | present _ phrase => exact Among.skip (phrase.namesAmong origins) _

theorem ExpressionStatement.namesAmong {tree : Stmt}
    (phrase : ExpressionStatement tokens tree) (origins : Origins) :
    Among (tree.roles distances origins) tokens := by
  cases phrase with
  | mk phrase => exact Among.close (phrase.namesAmong origins) _

theorem VarDeclaration.namesAmong {tree : Stmt} (phrase : VarDeclaration tokens tree)
    (origins : Origins) : Among (tree.roles distances origins) tokens := by
  cases phrase with
  | mk _ nameKind phrase =>
    exact (((phrase.namesAmong _).close _).cons fun _ => nameKind).skip _

theorem SuperclassClause.namesAmong {found : Option Occurrence}
    (phrase : SuperclassClause tokens found) (origins : Origins) :
    Among (found.toList.map (Role.ofReference distances origins)) tokens := by
  cases phrase with
  | absent => exact .nil _
  | present _ nameKind => exact ((Among.nil []).cons fun _ => nameKind).skip _

theorem FurtherParameters.namesAmong {names : List Occurrence}
    (phrase : FurtherParameters tokens names) :
    Among (names.map (·, .declares)) tokens := by
  induction phrase with
  | none => exact .nil _
  | more _ nameKind _ others => exact (others.cons fun _ => nameKind).skip _

theorem Parameters.namesAmong {names : List Occurrence} (phrase : Parameters tokens names) :
    Among (names.map (·, .declares)) tokens := by
  cases phrase with
  | none => exact .nil _
  | some nameKind others => exact others.namesAmong.cons fun _ => nameKind

theorem ForInitializer.namesAmong {found : Option Stmt}
    (phrase : ForInitializer tokens found) (origins : Origins) :
    Among (Stmt.rolesOfAll distances origins found.toList) tokens := by
  cases phrase with
  | absent => exact .nil _
  | declaration phrase =>
      rw [Option.toList_some, Stmt.rolesOfAll, Stmt.rolesOfAll, List.append_nil]
      exact phrase.namesAmong origins
  | expression phrase =>
      rw [Option.toList_some, Stmt.rolesOfAll, Stmt.rolesOfAll, List.append_nil]
      exact phrase.namesAmong origins

end Clauses

def StatementPhrase.NamesAmong (distances : Distances) (words : List Occurrence) :
    (phrase : StatementPhrase) → phrase.Tree → Prop
  | .declarations, trees | .block, trees =>
    ∀ origins, Among (Stmt.rolesOfAll distances origins trees) words
  | .declaration, tree | .statement _, tree =>
    ∀ origins, Among (Stmt.roles distances origins tree) words
  | .routine, tree => ∀ origins, Among (Routine.roles distances origins tree) words
  | .methods, trees => ∀ origins, Among (Routine.rolesOfAll distances origins trees) words

section Loops

variable {condition increment : Option Expr} {body : Stmt} {initializer : Option Stmt}
  {first second third fourth : List Occurrence}

/-- The increment stands in front of the body in the text and behind it in the tree. -/
theorem repeatedByFor_namesAmong
    (increments : ∀ origins, Among (Expr.rolesOfOption distances origins increment) first)
    (bodies : ∀ origins, Among (body.roles distances origins) second) (origins : Origins) :
    Among ((repeatedByFor body increment).roles distances origins) (first ++ second) := by
  cases increment with
  | none => exact (increments origins).append (bodies origins)
  | some increment =>
      rw [repeatedByFor, Stmt.roles, Stmt.rolesOfAll, Stmt.rolesOfAll, Stmt.rolesOfAll,
        List.append_nil]
      exact (bodies _).swap (increments _)

theorem condition_namesAmong
    (conditions : ∀ origins, Among (Expr.rolesOfOption distances origins condition) first)
    (origins : Origins) :
    Among ((condition.getD (.literal (.bool true))).roles distances origins) first := by
  cases condition with
  | none => exact .nil _
  | some condition => exact conditions origins

theorem forTree_namesAmong
    (initializers : ∀ origins,
      Among (Stmt.rolesOfAll distances origins initializer.toList) first)
    (conditions : ∀ origins, Among (Expr.rolesOfOption distances origins condition) second)
    (increments : ∀ origins, Among (Expr.rolesOfOption distances origins increment) third)
    (bodies : ∀ origins, Among (body.roles distances origins) fourth) (origins : Origins) :
    Among ((forTree condition increment body initializer).roles distances origins)
      (first ++ (second ++ (third ++ fourth))) := by
  have loop : ∀ origins, Among ((Stmt.whileLoop (condition.getD (.literal (.bool true)))
      (repeatedByFor body increment)).roles distances origins)
      (second ++ (third ++ fourth)) := fun origins =>
    (condition_namesAmong conditions origins).append
      (repeatedByFor_namesAmong increments bodies origins)
  cases initializer with
  | none => exact (initializers origins).append (loop origins)
  | some initializer =>
      have initializers' := initializers (origins.nest [])
      rw [Option.toList_some, Stmt.rolesOfAll, Stmt.rolesOfAll, List.append_nil] at initializers'
      rw [forTree, Stmt.roles, Stmt.rolesOfAll, Stmt.rolesOfAll, Stmt.rolesOfAll,
        List.append_nil]
      exact initializers'.append (loop _)

end Loops

theorem Statement.namesAmong {rule : ElseRule} {phrase : StatementPhrase}
    {tokens : List Occurrence} {tree : phrase.Tree}
    (derivation : Statement rule phrase tokens tree) :
    phrase.NamesAmong distances tokens tree := by
  induction derivation with
  | noDeclarations | noMethods => exact fun _ => .nil _
  | moreDeclarations _ _ first rest | moreMethods _ _ first rest =>
    exact fun origins => (first origins).append (rest _)
  | classDeclaration _ _ superclassPhrase _ _ _ methods =>
      intro origins
      exact (((superclassPhrase.namesAmong _).append
        (((methods _).close _).skip _)).cons (absurd rfl)).skip _
  | functionDeclaration _ _ routine => exact fun origins => (routine _).skip _
  | varDeclaration phrase => exact phrase.namesAmong
  | statement _ names => exact names
  | routine _ _ parametersPhrase _ _ _ body =>
      intro origins
      exact ((parametersPhrase.namesAmong.append ((body _).skip _)).skip _).cons
        (absurd rfl)
  | block _ _ _ names => exact fun origins => ((names origins).close _).skip _
  | expressionStatement phrase => exact phrase.namesAmong
  | blockStatement _ names => exact fun origins => names _
  | printStatement _ valuePhrase _ =>
    exact fun origins => Among.skip (Among.close (valuePhrase.namesAmong origins) _) _
  | returnStatement _ valuePhrase _ =>
    exact fun origins => ((valuePhrase.namesAmong origins).close _).skip _
  | whileStatement _ _ conditionPhrase _ _ body =>
      intro origins
      exact ((Among.append (conditionPhrase.namesAmong origins)
        ((body origins).skip _)).skip _).skip _
  | forStatement _ _ initializerPhrase conditionPhrase _ incrementPhrase _ _ body =>
      intro origins
      exact ((forTree_namesAmong initializerPhrase.namesAmong
        conditionPhrase.namesAmong (fun origins => (incrementPhrase.namesAmong origins).skip _)
        (fun origins => (body origins).skip _) origins).skip _).skip _
  | ifStatement _ _ conditionPhrase _ _ thenBranch =>
      intro origins
      exact ((Among.append (conditionPhrase.namesAmong origins)
        ((thenBranch origins).skip _)).skip _).skip _
  | ifElseStatement _ _ conditionPhrase _ _ _ _ _ thenBranch elseBranch =>
      intro origins
      exact ((Among.append (conditionPhrase.namesAmong origins)
        (((thenBranch origins).append ((elseBranch origins).skip _)).skip _)).skip _).skip _

end Grammar

end LoxLang
