import Mathlib.Logic.Basic
import Mathlib.Logic.Relation
import LoxLang.Proofs.Grammar.Trees

/-!
# Pieces of programs

A function can be called long after the program that declared it has ended, and it runs its body as
it was written. What is to be known about that body must be known about every piece of the programs
there have been; so it has to pass from a piece to its parts.

1. `Code.mem_mentions`: the mentions in a piece are its own and those in its parts.
2. `Code.All.intro`: what holds of a piece and throughout its parts holds throughout the piece.
-/

namespace LoxLang

/-- A piece of a program. -/
inductive Code where
  | expr (e : Expr)
  | stmt (s : Stmt)
  | function (decl : FunctionDecl)

namespace Code

/-- The pieces that a piece directly consists of. -/
def parts : Code → List Code
  | expr (.grouping inner) => [expr inner]
  | expr (.unary _ operand) => [expr operand]
  | expr (.binary left _ right) => [expr left, expr right]
  | expr (.logical left _ right) => [expr left, expr right]
  | expr (.assign _ value) => [expr value]
  | expr (.call callee _ arguments) => expr callee :: arguments.map expr
  | expr (.get object _) => [expr object]
  | expr (.set object _ value) => [expr object, expr value]
  | expr _ => []
  | stmt (.expression value) => [expr value]
  | stmt (.print value) => [expr value]
  | stmt (.varDecl _ initializer) => initializer.toList.map expr
  | stmt (.block body) => body.map stmt
  | stmt (.ifThen condition thenBranch) => [expr condition, stmt thenBranch]
  | stmt (.ifElse condition thenBranch elseBranch) =>
    [expr condition, stmt thenBranch, stmt elseBranch]
  | stmt (.whileDo condition body) => [expr condition, stmt body]
  | stmt (.funDecl decl) => [function decl]
  | stmt (.ret _ value) => value.toList.map expr
  | stmt (.classDecl _ _ methods) => methods.map function
  | function decl => decl.body.map stmt

/-- The mentions in a piece that are in none of its parts. -/
def uses : Code → List Occurrence
  | expr (.var name) => [name]
  | expr (.assign target _) => [target]
  | expr (.this keyword) => [keyword]
  | expr (.super keyword _) => [keyword]
  | stmt (.classDecl _ superclass _) => superclass.toList
  | _ => []

/-- The names that a piece itself, but for its parts, reads, assigns to or declares. Reserved words
are not among them. -/
def names : Code → List String
  | expr (.var name) => [name.name]
  | expr (.assign target _) => [target.name]
  | stmt (.varDecl name _) => [name.lexeme]
  | stmt (.funDecl decl) => [decl.name.lexeme]
  | stmt (.classDecl name superclass _) => name.lexeme :: superclass.toList.map Occurrence.name
  | function decl => decl.params.map Token.lexeme
  | _ => []

/-- All mentions in a piece. -/
def mentions : Code → List Occurrence
  | expr e => e.mentions
  | stmt s => s.mentions
  | function decl => decl.mentions

/-! ## Mentions -/

@[simp] theorem mentions_expr (e : Expr) : (expr e).mentions = e.mentions := rfl

@[simp] theorem mentions_stmt (s : Stmt) : (stmt s).mentions = s.mentions := rfl

@[simp] theorem mentions_function (decl : FunctionDecl) :
    (function decl).mentions = decl.mentions := rfl

theorem mentions_eq_body (decl : FunctionDecl) : decl.mentions = Stmt.allMentions decl.body := by
  cases decl
  rfl

theorem mem_allMentions_exprs {es : List Expr} {o : Occurrence} :
    o ∈ Expr.allMentions es ↔ ∃ e ∈ es, o ∈ e.mentions := by
  rw [Expr.allMentions_eq_flatMap, List.mem_flatMap]

theorem mem_allMentions_stmts {body : List Stmt} {o : Occurrence} :
    o ∈ Stmt.allMentions body ↔ ∃ s ∈ body, o ∈ s.mentions := by
  rw [Stmt.allMentions_eq_flatMap, List.mem_flatMap]

theorem mem_allMentions_functions {methods : List FunctionDecl} {o : Occurrence} :
    o ∈ FunctionDecl.allMentions methods ↔ ∃ m ∈ methods, o ∈ m.mentions := by
  rw [FunctionDecl.allMentions_eq_flatMap, List.mem_flatMap]

/-- A mention in a piece is its own or one in a part. -/
theorem mem_mentions {c : Code} {o : Occurrence} :
    o ∈ c.mentions ↔ o ∈ c.uses ∨ ∃ c' ∈ c.parts, o ∈ c'.mentions := by
  cases c with
  | expr e =>
    cases e <;> simp [uses, parts, Expr.mentions, mem_allMentions_exprs, or_comm]
  | stmt s =>
    cases s with
    | varDecl name initializer => cases initializer <;> simp [uses, parts, Stmt.mentions]
    | ret keyword value => cases value <;> simp [uses, parts, Stmt.mentions]
    | _ => simp [uses, parts, Stmt.mentions, mem_allMentions_stmts, mem_allMentions_functions]
  | function decl =>
    simp [uses, parts, mentions_eq_body, mem_allMentions_stmts]

/-! ## What holds throughout a piece -/

/-- What is known of a piece is known of its parts. -/
def Hereditary (P : Code → Prop) : Prop :=
  ∀ {c}, P c → ∀ c' ∈ c.parts, P c'

/-- The second piece is somewhere in the first, or is the first itself. -/
def Within : Code → Code → Prop :=
  Relation.ReflTransGen fun c c' => c' ∈ c.parts

/-- Something holds of a piece and of all pieces in it. -/
def All (P : Code → Prop) (c : Code) : Prop :=
  ∀ c', Within c c' → P c'

namespace All

variable {P : Code → Prop} {c : Code}

theorem self (h : All P c) : P c :=
  h c .refl

theorem part (h : All P c) {c' : Code} (hpart : c' ∈ c.parts) : All P c' :=
  fun c'' hwithin => h c'' (.head hpart hwithin)

theorem intro (h : P c) (hparts : ∀ c' ∈ c.parts, All P c') : All P c := by
  intro c' hwithin
  rcases hwithin.cases_head with rfl | ⟨d, hpart, hwithin⟩
  · exact h
  · exact hparts d hpart c' hwithin

end All

end Code

end LoxLang
