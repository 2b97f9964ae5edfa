import LoxLang.Tree

/-!
# Programs that are alike

Two programs are alike if they differ in the numbers of their mentions, in the lines of their
tokens, and in what local variables are called, as long as the same mentions mean the same variable.
The names that the two use for the variables around a place are kept in pairs. How lines may differ
is left open.

1. `Pairing.pairs_diagonal`: where both use the same names, each name is paired with itself.
2. `Stmt.Alike`, `FunctionDecl.Alike`: programs that are alike.
-/

namespace LoxLang

/-- The names of the local variables that are known at a place, in two programs; innermost first. -/
abbrev Pairing := List (String × String)

namespace Pairing

/-- Two names mean the same variable: one pair has both, and no pair inside it has any of them. What
is in no pair is a global, and called the same. -/
def Pairs : Pairing → String → String → Prop
  | [], x, x' => x = x'
  | (y, y') :: outer, x, x' => x = y ∧ x' = y' ∨ x ≠ y ∧ x' ≠ y' ∧ Pairs outer x x'

/-- What is paired at a place; outside of all scopes nothing is. -/
def known (ρ : Option Pairing) : Pairing :=
  ρ.getD []

/-- Behind a declaration. Globals are not paired. -/
def declare (x x' : String) (ρ : Option Pairing) : Option Pairing :=
  ρ.map fun ρ => (x, x') :: ρ

/-- Behind the parameters of a function. -/
def declareAll : List Token → List Token → Pairing → Pairing
  | p :: ps, p' :: ps', ρ => declareAll ps ps' ((p.lexeme, p'.lexeme) :: ρ)
  | _, _, ρ => ρ

/-- A name declared outside of all scopes is that of a global, and must be the same. -/
def Allows (ρ : Option Pairing) (x x' : String) : Prop :=
  ρ = none → x = x'

theorem declare_eq_none {ρ : Option Pairing} (h : ρ = none) (x x' : String) :
    declare x x' ρ = none := by
  subst h
  rfl

/-- Both programs use the same names. -/
def Diagonal (ρ : Pairing) : Prop :=
  ∀ p ∈ ρ, p.1 = p.2

theorem pairs_diagonal {ρ : Pairing} (h : ρ.Diagonal) (x : String) : ρ.Pairs x x := by
  induction ρ with
  | nil => rfl
  | cons p ρ ih =>
    obtain ⟨y, y'⟩ := p
    obtain ⟨hp, hρ⟩ := List.forall_mem_cons.1 h
    obtain rfl : y = y' := hp
    by_cases hx : x = y
    · exact .inl ⟨hx, hx⟩
    · exact .inr ⟨hx, hx, ih hρ⟩

end Pairing

section

variable (L : Nat → Nat → Prop) (ρ : Pairing)

/-- Two tokens that differ in their lines at most. -/
structure Token.Alike (t t' : Token) : Prop where
  kind : t.kind = t'.kind
  lexeme : t.lexeme = t'.lexeme
  line : L t.line t'.line

/-- Two mentions of the same variable. -/
structure Occurrence.Alike (o o' : Occurrence) : Prop where
  name : ρ.Pairs o.name o'.name
  line : L o.token.line o'.token.line

mutual

/-- Two expressions with the same meaning. -/
inductive Expr.Alike : Expr → Expr → Prop
  | literal (value : Literal) : Expr.Alike (.literal value) (.literal value)
  | grouping {inner inner' : Expr} : Expr.Alike inner inner' →
      Expr.Alike (.grouping inner) (.grouping inner')
  | unary {operator operator' : Token} {operand operand' : Expr} : operator.Alike L operator' →
      Expr.Alike operand operand' → Expr.Alike (.unary operator operand) (.unary operator' operand')
  | binary {left left' right right' : Expr} {operator operator' : Token} :
      Expr.Alike left left' → operator.Alike L operator' → Expr.Alike right right' →
      Expr.Alike (.binary left operator right) (.binary left' operator' right')
  | logical {left left' right right' : Expr} {operator operator' : Token} :
      Expr.Alike left left' → operator.Alike L operator' → Expr.Alike right right' →
      Expr.Alike (.logical left operator right) (.logical left' operator' right')
  | var {name name' : Occurrence} : name.Alike L ρ name' → Expr.Alike (.var name) (.var name')
  | assign {target target' : Occurrence} {value value' : Expr} : target.Alike L ρ target' →
      Expr.Alike value value' → Expr.Alike (.assign target value) (.assign target' value')
  | call {callee callee' : Expr} {close close' : Token} {arguments arguments' : List Expr} :
      Expr.Alike callee callee' → close.Alike L close' → Expr.AllAlike arguments arguments' →
      Expr.Alike (.call callee close arguments) (.call callee' close' arguments')
  | get {object object' : Expr} {name name' : Token} : Expr.Alike object object' →
      name.Alike L name' → Expr.Alike (.get object name) (.get object' name')
  | set {object object' value value' : Expr} {name name' : Token} : Expr.Alike object object' →
      name.Alike L name' → Expr.Alike value value' →
      Expr.Alike (.set object name value) (.set object' name' value')
  | this {keyword keyword' : Occurrence} : keyword.Alike L ρ keyword' →
      Expr.Alike (.this keyword) (.this keyword')
  | super {keyword keyword' : Occurrence} {method method' : Token} :
      L keyword.token.line keyword'.token.line → ρ.Pairs "super" "super" → ρ.Pairs "this" "this" →
      method.Alike L method' → Expr.Alike (.super keyword method) (.super keyword' method')

inductive Expr.AllAlike : List Expr → List Expr → Prop
  | nil : Expr.AllAlike [] []
  | cons {e e' : Expr} {rest rest' : List Expr} : Expr.Alike e e' → Expr.AllAlike rest rest' →
      Expr.AllAlike (e :: rest) (e' :: rest')

end

end

/-- What is paired behind two statements. -/
def Pairing.after : Stmt → Stmt → Option Pairing → Option Pairing
  | .varDecl name _, .varDecl name' _ => declare name.lexeme name'.lexeme
  | .funDecl decl, .funDecl decl' => declare decl.name.lexeme decl'.name.lexeme
  | .classDecl name _ _, .classDecl name' _ _ => declare name.lexeme name'.lexeme
  | _, _ => id

theorem Pairing.after_eq_none {ρ : Option Pairing} (h : ρ = none) (s s' : Stmt) :
    after s s' ρ = none := by
  unfold after
  split
  · exact declare_eq_none h _ _
  · exact declare_eq_none h _ _
  · exact declare_eq_none h _ _
  · exact h

/-- Inside a class declaration `super` is paired, if there is a superclass. -/
def Pairing.inherit {α : Type} (superclass : Option α) (ρ : Pairing) : Pairing :=
  match superclass with
  | none => ρ
  | some _ => ("super", "super") :: ρ

section

variable (L : Nat → Nat → Prop)

mutual

/-- Two statements with the same meaning. Functions and classes are called the same, because their
names can be printed. A branch declares nothing. -/
inductive Stmt.Alike : Option Pairing → Stmt → Stmt → Prop
  | expression {ρ : Option Pairing} {value value' : Expr} : value.Alike L (Pairing.known ρ) value' →
      Stmt.Alike ρ (.expression value) (.expression value')
  | print {ρ : Option Pairing} {value value' : Expr} : value.Alike L (Pairing.known ρ) value' →
      Stmt.Alike ρ (.print value) (.print value')
  | varDecl {ρ : Option Pairing} {name name' : Token} {initializer initializer' : Option Expr} :
      Pairing.Allows ρ name.lexeme name'.lexeme →
      Option.Rel (Expr.Alike L (Pairing.known (Pairing.declare name.lexeme name'.lexeme ρ)))
        initializer initializer' →
      Stmt.Alike ρ (.varDecl name initializer) (.varDecl name' initializer')
  | block {ρ : Option Pairing} {body body' : List Stmt} :
      Stmt.AllAlike (some (Pairing.known ρ)) body body' → Stmt.Alike ρ (.block body) (.block body')
  | ifThen {ρ : Option Pairing} {condition condition' : Expr} {thenBranch thenBranch' : Stmt} :
      condition.Alike L (Pairing.known ρ) condition' → Stmt.Alike ρ thenBranch thenBranch' →
      Pairing.after thenBranch thenBranch' ρ = ρ →
      Stmt.Alike ρ (.ifThen condition thenBranch) (.ifThen condition' thenBranch')
  | ifElse {ρ : Option Pairing} {condition condition' : Expr}
      {thenBranch thenBranch' elseBranch elseBranch' : Stmt} :
      condition.Alike L (Pairing.known ρ) condition' → Stmt.Alike ρ thenBranch thenBranch' →
      Pairing.after thenBranch thenBranch' ρ = ρ → Stmt.Alike ρ elseBranch elseBranch' →
      Pairing.after elseBranch elseBranch' ρ = ρ →
      Stmt.Alike ρ (.ifElse condition thenBranch elseBranch)
        (.ifElse condition' thenBranch' elseBranch')
  | whileDo {ρ : Option Pairing} {condition condition' : Expr} {body body' : Stmt} :
      condition.Alike L (Pairing.known ρ) condition' → Stmt.Alike ρ body body' →
      Pairing.after body body' ρ = ρ →
      Stmt.Alike ρ (.whileDo condition body) (.whileDo condition' body')
  | funDecl {ρ : Option Pairing} {decl decl' : FunctionDecl} :
      FunctionDecl.Alike
        (Pairing.known (Pairing.declare decl.name.lexeme decl'.name.lexeme ρ)) decl decl' →
      Stmt.Alike ρ (.funDecl decl) (.funDecl decl')
  | ret {ρ : Option Pairing} {keyword keyword' : Token} {value value' : Option Expr} :
      Option.Rel (Expr.Alike L (Pairing.known ρ)) value value' →
      Stmt.Alike ρ (.ret keyword value) (.ret keyword' value')
  | classDecl {ρ : Option Pairing} {name name' : Token} {superclass superclass' : Option Occurrence}
      {methods methods' : List FunctionDecl} : name.lexeme = name'.lexeme →
      Option.Rel (Occurrence.Alike L (Pairing.known ρ)) superclass superclass' →
      FunctionDecl.AllAlike (("this", "this") :: Pairing.inherit superclass
        (Pairing.known (Pairing.declare name.lexeme name'.lexeme ρ))) methods methods' →
      Stmt.Alike ρ (.classDecl name superclass methods) (.classDecl name' superclass' methods')

/-- Two functions with the same meaning. -/
inductive FunctionDecl.Alike : Pairing → FunctionDecl → FunctionDecl → Prop
  | mk {ρ : Pairing} {name name' : Token} {params params' : List Token} {body body' : List Stmt} :
      name.lexeme = name'.lexeme → params.length = params'.length →
      Stmt.AllAlike (some (Pairing.declareAll params params' ρ)) body body' →
      FunctionDecl.Alike ρ ⟨name, params, body⟩ ⟨name', params', body'⟩

/-- Two lists of statements, one after another, with the same meaning. -/
inductive Stmt.AllAlike : Option Pairing → List Stmt → List Stmt → Prop
  | nil {ρ : Option Pairing} : Stmt.AllAlike ρ [] []
  | cons {ρ : Option Pairing} {s s' : Stmt} {rest rest' : List Stmt} : Stmt.Alike ρ s s' →
      Stmt.AllAlike (Pairing.after s s' ρ) rest rest' → Stmt.AllAlike ρ (s :: rest) (s' :: rest')

inductive FunctionDecl.AllAlike : Pairing → List FunctionDecl → List FunctionDecl → Prop
  | nil {ρ : Pairing} : FunctionDecl.AllAlike ρ [] []
  | cons {ρ : Pairing} {m m' : FunctionDecl} {rest rest' : List FunctionDecl} :
      FunctionDecl.Alike ρ m m' → FunctionDecl.AllAlike ρ rest rest' →
      FunctionDecl.AllAlike ρ (m :: rest) (m' :: rest')

end

end

namespace FunctionDecl.Alike

variable {L : Nat → Nat → Prop} {ρ : Pairing} {decl decl' : FunctionDecl}

theorem name_eq (h : decl.Alike L ρ decl') : decl.name.lexeme = decl'.name.lexeme := by
  cases h with
  | mk hname _ _ => exact hname

theorem length_params (h : decl.Alike L ρ decl') : decl.params.length = decl'.params.length := by
  cases h with
  | mk _ hlength _ => exact hlength

theorem body (h : decl.Alike L ρ decl') :
    Stmt.AllAlike L (some (Pairing.declareAll decl.params decl'.params ρ)) decl.body
      decl'.body := by
  cases h with
  | mk _ _ hbody => exact hbody

theorem isInitializer_eq (h : decl.Alike L ρ decl') :
    decl.isInitializer = decl'.isInitializer := by
  simp only [FunctionDecl.isInitializer, h.name_eq]

end FunctionDecl.Alike

end LoxLang
