import LoxLang.Proofs.Scanning.Spelling
import LoxLang.Scoping.Resolution

/-!
# Programs whose mentions are traced

What it means that recorded distances are right, without a walk over the tree: around a place there
are scopes, each with the names that are declared in it before the place, and the distance recorded
for a mention leads to the innermost scope with its name.

1. `Stmt.Scoped.extend`: what is right stays right when more mentions become known.
-/

namespace LoxLang

/-- The scopes around a place, innermost first, each as the names declared in it before the place.
The globals are not among them. -/
abbrev Surroundings := List (List String)

namespace Surroundings

/-- How many scopes out the innermost declaration of a name is. -/
def locate? (around : Surroundings) (name : String) : Option Nat :=
  around.findIdx? fun names => names.contains name

/-- The surroundings behind a declaration; one of a global is not tracked. -/
def declare (name : String) : Surroundings → Surroundings
  | [] => []
  | names :: outer => (names ++ [name]) :: outer

/-- The name is not declared in the innermost scope. -/
def Fresh (name : String) : Surroundings → Prop
  | [] => True
  | names :: _ => name ∉ names

/-- What is declared and has no value yet, while the initial value of a variable is computed. -/
def pending (name : String) : Surroundings → Option String
  | [] => none
  | _ :: _ => some name

end Surroundings

/-- What is known about mentions: for each with a number below the limit, whether it means a local
variable and where that is. -/
structure Knowledge where
  distances : Distances
  limit : Nat

namespace Knowledge

/-- The distance recorded for a mention leads to the innermost scope that declares its name, and
there is none if no scope does. -/
def Traces (k : Knowledge) (around : Surroundings) (o : Occurrence) : Prop :=
  o.id < k.limit ∧ k.distances[o.id]? = around.locate? o.name

/-- More is known, and about other mentions. -/
structure Extends (k' k : Knowledge) : Prop where
  limit_le : k.limit ≤ k'.limit
  agree : ∀ id, id < k.limit → k'.distances[id]? = k.distances[id]?

theorem Extends.refl (k : Knowledge) : k.Extends k :=
  ⟨Nat.le_refl _, fun _ _ => rfl⟩

theorem Traces.extend {k k' : Knowledge} {around : Surroundings} {o : Occurrence}
    (h : k.Traces around o) (hk : k'.Extends k) : k'.Traces around o :=
  ⟨Nat.lt_of_lt_of_le h.1 hk.limit_le, (hk.agree _ h.1).trans h.2⟩

end Knowledge

variable (k : Knowledge)

mutual

/-- All mentions in an expression are traced; the pending variable is not read. -/
def Expr.Scoped (around : Surroundings) (pending : Option String) : Expr → Prop
  | .literal _ => True
  | .grouping inner => inner.Scoped around pending
  | .unary _ operand => operand.Scoped around pending
  | .binary left _ right => left.Scoped around pending ∧ right.Scoped around pending
  | .logical left _ right => left.Scoped around pending ∧ right.Scoped around pending
  | .var name => k.Traces around name ∧ pending ≠ some name.name
  | .assign target value => value.Scoped around pending ∧ k.Traces around target
  | .call callee _ arguments =>
    callee.Scoped around pending ∧ Expr.AllScoped around pending arguments
  | .get object _ => object.Scoped around pending
  | .set object _ value => object.Scoped around pending ∧ value.Scoped around pending
  | .this keyword =>
    k.Traces around keyword ∧ keyword.name = "this" ∧ (around.locate? "this").isSome
  | .super keyword _ =>
    k.Traces around keyword ∧ keyword.name = "super" ∧
      ∃ d, around.locate? "this" = some d ∧ around.locate? "super" = some (d + 1)

/-- All mentions in some expressions are traced. -/
def Expr.AllScoped (around : Surroundings) (pending : Option String) : List Expr → Prop
  | [] => True
  | e :: rest => e.Scoped around pending ∧ Expr.AllScoped around pending rest

end

/-- The surroundings behind a statement. -/
def Stmt.after (s : Stmt) (around : Surroundings) : Surroundings :=
  match s with
  | .varDecl name _ => around.declare name.lexeme
  | .funDecl decl => around.declare decl.name.lexeme
  | .classDecl name _ _ => around.declare name.lexeme
  | _ => around

/-- The scope inside a class declaration that binds `super`, if there is a superclass. -/
def Surroundings.inherit {α : Type} (superclass : Option α) (around : Surroundings) :
    Surroundings :=
  match superclass with
  | none => around
  | some _ => ["super"] :: around

mutual

/-- All mentions in a statement are traced. No name is declared twice in a scope, none but those of
the language's own is called `this` or `super`, and no branch is a declaration. -/
def Stmt.Scoped (around : Surroundings) : Stmt → Prop
  | .expression value => value.Scoped k around none
  | .print value => value.Scoped k around none
  | .varDecl name initializer =>
    IsName name.lexeme ∧ around.Fresh name.lexeme ∧
      ∀ e ∈ initializer,
        e.Scoped k (around.declare name.lexeme) (around.pending name.lexeme)
  | .block body => Stmt.AllScoped ([] :: around) body
  | .ifThen condition thenBranch =>
    condition.Scoped k around none ∧ thenBranch.Scoped around ∧ thenBranch.after around = around
  | .ifElse condition thenBranch elseBranch =>
    condition.Scoped k around none ∧ (thenBranch.Scoped around ∧ thenBranch.after around = around) ∧
      elseBranch.Scoped around ∧ elseBranch.after around = around
  | .whileDo condition body =>
    condition.Scoped k around none ∧ body.Scoped around ∧ body.after around = around
  | .funDecl decl =>
    IsName decl.name.lexeme ∧ around.Fresh decl.name.lexeme ∧
      decl.Scoped (around.declare decl.name.lexeme)
  | .ret _ value => ∀ e ∈ value, e.Scoped k around none
  | .classDecl name superclass methods =>
    IsName name.lexeme ∧ around.Fresh name.lexeme ∧
      (∀ o ∈ superclass, o.name ≠ name.lexeme ∧ k.Traces (around.declare name.lexeme) o) ∧
      FunctionDecl.AllScoped
        (["this"] :: ((around.declare name.lexeme).inherit superclass)) methods

/-- All mentions in a function are traced; its parameters share the scope of its body. -/
def FunctionDecl.Scoped (around : Surroundings) : FunctionDecl → Prop
  | ⟨_, params, body⟩ =>
    (params.map Token.lexeme).Nodup ∧ (∀ p ∈ params, IsName p.lexeme) ∧
      Stmt.AllScoped (params.map Token.lexeme :: around) body

/-- All mentions in statements one after another are traced. -/
def Stmt.AllScoped (around : Surroundings) : List Stmt → Prop
  | [] => True
  | s :: rest => s.Scoped around ∧ Stmt.AllScoped (s.after around) rest

/-- All mentions in some functions are traced. -/
def FunctionDecl.AllScoped (around : Surroundings) : List FunctionDecl → Prop
  | [] => True
  | m :: rest => m.Scoped around ∧ FunctionDecl.AllScoped around rest

end

variable {k} {k' : Knowledge}

/-! ## More mentions become known -/

mutual

theorem Expr.Scoped.extend (hk : k'.Extends k) {around : Surroundings} {pending : Option String} :
    (e : Expr) → e.Scoped k around pending → e.Scoped k' around pending
  | .literal _, _ => trivial
  | .grouping inner, h => Expr.Scoped.extend hk inner h
  | .unary _ operand, h => Expr.Scoped.extend hk operand h
  | .binary left _ right, h =>
    ⟨Expr.Scoped.extend hk left h.1, Expr.Scoped.extend hk right h.2⟩
  | .logical left _ right, h =>
    ⟨Expr.Scoped.extend hk left h.1, Expr.Scoped.extend hk right h.2⟩
  | .var _, h => ⟨h.1.extend hk, h.2⟩
  | .assign _ value, h => ⟨Expr.Scoped.extend hk value h.1, h.2.extend hk⟩
  | .call callee _ arguments, h =>
    ⟨Expr.Scoped.extend hk callee h.1, Expr.AllScoped.extend hk arguments h.2⟩
  | .get object _, h => Expr.Scoped.extend hk object h
  | .set object _ value, h =>
    ⟨Expr.Scoped.extend hk object h.1, Expr.Scoped.extend hk value h.2⟩
  | .this _, h => ⟨h.1.extend hk, h.2⟩
  | .super _ _, h => ⟨h.1.extend hk, h.2⟩

theorem Expr.AllScoped.extend (hk : k'.Extends k) {around : Surroundings}
    {pending : Option String} :
    (es : List Expr) → Expr.AllScoped k around pending es → Expr.AllScoped k' around pending es
  | [], _ => trivial
  | e :: rest, h => ⟨Expr.Scoped.extend hk e h.1, Expr.AllScoped.extend hk rest h.2⟩

end

mutual

theorem Stmt.Scoped.extend (hk : k'.Extends k) {around : Surroundings} :
    (s : Stmt) → s.Scoped k around → s.Scoped k' around
  | .expression value, h => Expr.Scoped.extend hk value h
  | .print value, h => Expr.Scoped.extend hk value h
  | .varDecl _ _, h => ⟨h.1, h.2.1, fun e he => Expr.Scoped.extend hk e (h.2.2 e he)⟩
  | .block body, h => Stmt.AllScoped.extend hk body h
  | .ifThen condition thenBranch, h =>
    ⟨Expr.Scoped.extend hk condition h.1, Stmt.Scoped.extend hk thenBranch h.2.1, h.2.2⟩
  | .ifElse condition thenBranch elseBranch, h =>
    ⟨Expr.Scoped.extend hk condition h.1, ⟨Stmt.Scoped.extend hk thenBranch h.2.1.1, h.2.1.2⟩,
      Stmt.Scoped.extend hk elseBranch h.2.2.1, h.2.2.2⟩
  | .whileDo condition body, h =>
    ⟨Expr.Scoped.extend hk condition h.1, Stmt.Scoped.extend hk body h.2.1, h.2.2⟩
  | .funDecl decl, h => ⟨h.1, h.2.1, FunctionDecl.Scoped.extend hk decl h.2.2⟩
  | .ret _ _, h => fun e he => Expr.Scoped.extend hk e (h e he)
  | .classDecl _ _ methods, h =>
    ⟨h.1, h.2.1, fun o ho => ⟨(h.2.2.1 o ho).1, (h.2.2.1 o ho).2.extend hk⟩,
      FunctionDecl.AllScoped.extend hk methods h.2.2.2⟩

theorem FunctionDecl.Scoped.extend (hk : k'.Extends k) {around : Surroundings} :
    (decl : FunctionDecl) → decl.Scoped k around → decl.Scoped k' around
  | ⟨_, _, body⟩, h => ⟨h.1, h.2.1, Stmt.AllScoped.extend hk body h.2.2⟩

theorem Stmt.AllScoped.extend (hk : k'.Extends k) {around : Surroundings} :
    (body : List Stmt) → Stmt.AllScoped k around body → Stmt.AllScoped k' around body
  | [], _ => trivial
  | s :: rest, h => ⟨Stmt.Scoped.extend hk s h.1, Stmt.AllScoped.extend hk rest h.2⟩

theorem FunctionDecl.AllScoped.extend (hk : k'.Extends k) {around : Surroundings} :
    (methods : List FunctionDecl) → FunctionDecl.AllScoped k around methods →
      FunctionDecl.AllScoped k' around methods
  | [], _ => trivial
  | m :: rest, h =>
    ⟨FunctionDecl.Scoped.extend hk m h.1, FunctionDecl.AllScoped.extend hk rest h.2⟩

end

end LoxLang
