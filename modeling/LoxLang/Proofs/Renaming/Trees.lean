import LoxLang.Proofs.Grammar.Trees
import LoxLang.Proofs.Scoping.Scoped

/-!
# Renaming of a local variable

A local variable is renamed at its declaration, which is a `var` declaration or a parameter, and at
the mentions that mean it: those whose recorded distance leads to its scope. Because no scope
declares a name twice, the scope and the name tell which declaration it is.

1. `Stmt.AllRenames`: a program and the program with one local variable renamed.
2. `Stmt.AllScoped.spares`: the variable is the only one with its name in its scope.
-/

namespace LoxLang

section

variable (distances : Distances) (x y : String)

/-- The name `x` becomes `y`. -/
def Token.rename (t : Token) : Token :=
  if t.lexeme = x then { t with lexeme := y } else t

/-- A mention, at a place so many scopes inside the scope of the variable. -/
def Occurrence.rename (k : Nat) (o : Occurrence) : Occurrence :=
  if distances[o.id]? = some k then ⟨o.id, o.token.rename x y⟩ else o

mutual

def Expr.rename (k : Nat) : Expr → Expr
  | .literal value => .literal value
  | .grouping inner => .grouping (inner.rename k)
  | .unary operator operand => .unary operator (operand.rename k)
  | .binary left operator right => .binary (left.rename k) operator (right.rename k)
  | .logical left operator right => .logical (left.rename k) operator (right.rename k)
  | .var name => .var (name.rename distances x y k)
  | .assign target value => .assign (target.rename distances x y k) (value.rename k)
  | .call callee close arguments => .call (callee.rename k) close (Expr.renameAll k arguments)
  | .get object name => .get (object.rename k) name
  | .set object name value => .set (object.rename k) name (value.rename k)
  | .this keyword => .this keyword
  | .super keyword method => .super keyword method

def Expr.renameAll (k : Nat) : List Expr → List Expr
  | [] => []
  | e :: rest => e.rename k :: Expr.renameAll k rest

end

/-- A declared name, at a place so many scopes inside the scope of the variable. -/
def Token.renameAt (k : Nat) (t : Token) : Token :=
  if k = 0 then t.rename x y else t

mutual

/-- A statement, at a place so many scopes inside the scope of the variable. A class body is one
scope, which binds `this`, and with a superclass two. -/
def Stmt.rename (k : Nat) : Stmt → Stmt
  | .expression value => .expression (value.rename distances x y k)
  | .print value => .print (value.rename distances x y k)
  | .varDecl name initializer =>
    .varDecl (name.renameAt x y k) (initializer.map (Expr.rename distances x y k))
  | .block body => .block (Stmt.renameAll (k + 1) body)
  | .ifThen condition thenBranch =>
    .ifThen (condition.rename distances x y k) (thenBranch.rename k)
  | .ifElse condition thenBranch elseBranch =>
    .ifElse (condition.rename distances x y k) (thenBranch.rename k) (elseBranch.rename k)
  | .whileDo condition body => .whileDo (condition.rename distances x y k) (body.rename k)
  | .funDecl decl => .funDecl (decl.rename k)
  | .ret keyword value => .ret keyword (value.map (Expr.rename distances x y k))
  | .classDecl name none methods => .classDecl name none (FunctionDecl.renameAll (k + 1) methods)
  | .classDecl name (some parent) methods =>
    .classDecl name (some (parent.rename distances x y k))
      (FunctionDecl.renameAll (k + 2) methods)

/-- A function inside the scope of the variable. -/
def FunctionDecl.rename (k : Nat) : FunctionDecl → FunctionDecl
  | ⟨name, params, body⟩ => ⟨name, params, Stmt.renameAll (k + 1) body⟩

def Stmt.renameAll (k : Nat) : List Stmt → List Stmt
  | [] => []
  | s :: rest => s.rename k :: Stmt.renameAll k rest

def FunctionDecl.renameAll (k : Nat) : List FunctionDecl → List FunctionDecl
  | [] => []
  | m :: rest => m.rename k :: FunctionDecl.renameAll k rest

end

/-- A `var` declaration of this name is among some statements. -/
def Stmt.Declares (body : List Stmt) : Prop :=
  ∃ name initializer, Stmt.varDecl name initializer ∈ body ∧ name.lexeme = x

mutual

/-- One local variable is renamed that is declared somewhere in the statement.

* `here`: it is declared in this block, outside of all others. Its mentions are found by their
  distances.
* `block`, `ifThen`, `thenBranch`, `elseBranch`, `whileDo`: it is declared in a part of the
  statement.
* `funDecl`, `classDecl`: it is a parameter of the function, or of a method of the class, or else
  is declared somewhere in the body. -/
inductive Stmt.Renames : Stmt → Stmt → Prop
  | here {body : List Stmt} : Stmt.Declares x body →
      Stmt.Renames (.block body) (.block (Stmt.renameAll distances x y 0 body))
  | block {body body' : List Stmt} : Stmt.AllRenames body body' →
      Stmt.Renames (.block body) (.block body')
  | ifThen (condition : Expr) {thenBranch thenBranch' : Stmt} :
      Stmt.Renames thenBranch thenBranch' →
      Stmt.Renames (.ifThen condition thenBranch) (.ifThen condition thenBranch')
  | thenBranch (condition : Expr) {thenBranch thenBranch' : Stmt} (elseBranch : Stmt) :
      Stmt.Renames thenBranch thenBranch' →
      Stmt.Renames (.ifElse condition thenBranch elseBranch)
        (.ifElse condition thenBranch' elseBranch)
  | elseBranch (condition : Expr) (thenBranch : Stmt) {elseBranch elseBranch' : Stmt} :
      Stmt.Renames elseBranch elseBranch' →
      Stmt.Renames (.ifElse condition thenBranch elseBranch)
        (.ifElse condition thenBranch elseBranch')
  | whileDo (condition : Expr) {body body' : Stmt} : Stmt.Renames body body' →
      Stmt.Renames (.whileDo condition body) (.whileDo condition body')
  | funDecl {decl decl' : FunctionDecl} : FunctionDecl.Renames decl decl' →
      Stmt.Renames (.funDecl decl) (.funDecl decl')
  | classDecl (name : Token) (superclass : Option Occurrence)
      {methods methods' : List FunctionDecl} :
      FunctionDecl.AllRenames methods methods' →
      Stmt.Renames (.classDecl name superclass methods) (.classDecl name superclass methods')

/-- One local variable of a function is renamed.

* `here`: it is a parameter, or declared in the body outside of all blocks, which is the same scope.
* `body`: it is declared somewhere in a statement of the body. -/
inductive FunctionDecl.Renames : FunctionDecl → FunctionDecl → Prop
  | here (name : Token) {params : List Token} {body : List Stmt} :
      x ∈ params.map Token.lexeme ∨ Stmt.Declares x body →
      FunctionDecl.Renames ⟨name, params, body⟩
        ⟨name, params.map (Token.rename x y), Stmt.renameAll distances x y 0 body⟩
  | body (name : Token) (params : List Token) {body body' : List Stmt} :
      Stmt.AllRenames body body' →
      FunctionDecl.Renames ⟨name, params, body⟩ ⟨name, params, body'⟩

/-- One local variable is renamed that is declared somewhere in one of the statements. -/
inductive Stmt.AllRenames : List Stmt → List Stmt → Prop
  | head {s s' : Stmt} (rest : List Stmt) : Stmt.Renames s s' →
      Stmt.AllRenames (s :: rest) (s' :: rest)
  | tail (s : Stmt) {rest rest' : List Stmt} : Stmt.AllRenames rest rest' →
      Stmt.AllRenames (s :: rest) (s :: rest')

inductive FunctionDecl.AllRenames : List FunctionDecl → List FunctionDecl → Prop
  | head {m m' : FunctionDecl} (rest : List FunctionDecl) : FunctionDecl.Renames m m' →
      FunctionDecl.AllRenames (m :: rest) (m' :: rest)
  | tail (m : FunctionDecl) {rest rest' : List FunctionDecl} : FunctionDecl.AllRenames rest rest' →
      FunctionDecl.AllRenames (m :: rest) (m :: rest')

end

end

theorem FunctionDecl.Renames.name_eq {distances : Distances} {x y : String}
    {decl decl' : FunctionDecl} (h : decl.Renames distances x y decl') :
    decl'.name = decl.name := by
  cases h <;> rfl

section

variable {distances : Distances} {x y : String} {P : String → Prop}

theorem Stmt.AllFormed.of_declares {body : List Stmt} (hf : Stmt.AllFormed P body)
    (h : Stmt.Declares x body) : P x := by
  induction body with
  | nil =>
    obtain ⟨name, initializer, hm, -⟩ := h
    exact nomatch hm
  | cons s rest ih =>
    obtain ⟨name, initializer, hm, rfl⟩ := h
    rcases List.mem_cons.1 hm with rfl | hm
    · cases initializer with
      | none => exact hf.1
      | some value => exact hf.1.1
    · exact ih hf.2 ⟨name, initializer, hm, rfl⟩

/-- The names of the parameters of a declared function. -/
def Stmt.parameters : Stmt → List String
  | .funDecl decl => decl.params.map Token.lexeme
  | _ => []

/-- A parameter of a function can be renamed. -/
theorem Stmt.renames_parameter (distances : Distances) (y : String) {s : Stmt}
    (hx : x ∈ s.parameters) : ∃ s', s.Renames distances x y s' := by
  cases s with
  | funDecl decl =>
    obtain ⟨name, params, body⟩ := decl
    exact ⟨_, .funDecl (.here name (.inl hx))⟩
  | _ => cases hx

/-- What is declared in one of some statements is declared in all of them together. -/
theorem Stmt.Renames.among {s s' : Stmt} (h : s.Renames distances x y s') {body : List Stmt}
    (hs : s ∈ body) : ∃ body', Stmt.AllRenames distances x y body body' := by
  induction body with
  | nil => exact nomatch hs
  | cons first rest ih =>
    rcases List.mem_cons.1 hs with rfl | hs
    · exact ⟨_, .head rest h⟩
    · obtain ⟨rest', hrest⟩ := ih hs
      exact ⟨_, .tail first hrest⟩

mutual

theorem Stmt.Renames.named {s s' : Stmt} : s.Renames distances x y s' → s.Formed P → P x
  | .here hdeclares, hf => Stmt.AllFormed.of_declares hf hdeclares
  | .block h, hf => h.named hf
  | .ifThen _ h, hf => h.named hf.2.1
  | .thenBranch _ _ h, hf => h.named hf.2.1.1
  | .elseBranch _ _ h, hf => h.named hf.2.2.1
  | .whileDo _ h, hf => h.named hf.2.1
  | .funDecl h, hf => h.named hf
  | .classDecl _ _ h, hf => h.named hf.2.2

theorem FunctionDecl.Renames.named {decl decl' : FunctionDecl} :
    decl.Renames distances x y decl' → decl.Formed P → P x
  | .here _ (.inl hx), hf => by
    obtain ⟨p, hp, rfl⟩ := List.mem_map.1 hx
    exact hf.2.1 p hp
  | .here _ (.inr hdeclares), hf => hf.2.2.of_declares hdeclares
  | .body _ _ h, hf => h.named hf.2.2

/-- What is renamed is a name of the program. -/
theorem Stmt.AllRenames.named {body body' : List Stmt} :
    Stmt.AllRenames distances x y body body' → Stmt.AllFormed P body → P x
  | .head _ h, hf => h.named hf.1
  | .tail _ h, hf => h.named hf.2

theorem FunctionDecl.AllRenames.named {methods methods' : List FunctionDecl} :
    FunctionDecl.AllRenames distances x y methods methods' → FunctionDecl.AllFormed P methods → P x
  | .head _ h, hf => h.named hf.1
  | .tail _ h, hf => h.named hf.2

end

end

theorem Token.lexeme_rename {x y : String} (t : Token) :
    (t.rename x y).lexeme = if t.lexeme = x then y else t.lexeme := by
  unfold Token.rename
  split <;> rfl

theorem Token.lexeme_renameAt {x y : String} (n : Nat) (t : Token) :
    (t.renameAt x y n).lexeme = if n = 0 ∧ t.lexeme = x then y else t.lexeme := by
  unfold Token.renameAt
  by_cases hn : n = 0 <;> simp [hn, Token.lexeme_rename]

theorem Token.renameAt_of_ne {x y : String} {n : Nat} {t : Token} (h : n = 0 → t.lexeme ≠ x) :
    t.renameAt x y n = t := by
  unfold Token.renameAt Token.rename
  by_cases hn : n = 0
  · rw [if_pos hn, if_neg (h hn)]
  · rw [if_neg hn]

theorem Token.map_renameAt_succ {x y : String} (n : Nat) (params : List Token) :
    params.map (Token.renameAt x y (n + 1)) = params := by
  have hsame : Token.renameAt x y (n + 1) = id := funext fun _ =>
    Token.renameAt_of_ne fun hn => absurd hn (Nat.succ_ne_zero n)
  rw [hsame, List.map_id]

/-! ## The only declaration -/

/-- Neither a function nor a class is declared under this name. -/
def Stmt.Spares (x : String) : Stmt → Prop
  | .funDecl decl => decl.name.lexeme ≠ x
  | .classDecl name _ _ => name.lexeme ≠ x
  | _ => True

variable {x : String} {k : Knowledge} {names : List String} {outer : Surroundings}

theorem Stmt.spares_of_declared? {s : Stmt} (h : s.declared? = none) (x : String) : s.Spares x := by
  cases s with
  | funDecl => exact nomatch h
  | classDecl => exact nomatch h
  | _ => trivial

/-- What a scope has, no more statement in it declares. -/
theorem Stmt.Scoped.spares {s : Stmt} (h : s.Scoped k (names :: outer)) (hx : x ∈ names) :
    s.Spares x := by
  cases s with
  | funDecl decl => exact fun he => h.2.1 (he ▸ hx)
  | classDecl name _ _ => exact fun he => h.2.1 (he ▸ hx)
  | _ => trivial

theorem Stmt.after_cons (s : Stmt) (names : List String) (outer : Surroundings) :
    s.after (names :: outer) = (names ++ (s.declared?.map Token.lexeme).toList) :: outer := by
  cases s <;> simp [Stmt.after, Stmt.declared?, Surroundings.declare]

theorem Stmt.AllScoped.not_declares {body : List Stmt} (h : Stmt.AllScoped k (names :: outer) body)
    (hx : x ∈ names) : ¬Stmt.Declares x body := by
  induction body generalizing names with
  | nil =>
    rintro ⟨name, initializer, hm, -⟩
    exact nomatch hm
  | cons s rest ih =>
    obtain ⟨hs, hrest⟩ := h
    rintro ⟨name, initializer, hm, rfl⟩
    rcases List.mem_cons.1 hm with rfl | hm
    · exact hs.2.1 hx
    · rw [Stmt.after_cons] at hrest
      exact ih hrest (List.mem_append_left _ hx) ⟨name, initializer, hm, rfl⟩

/-- A variable is the only one with its name in its scope. -/
theorem Stmt.AllScoped.spares {body : List Stmt} (h : Stmt.AllScoped k (names :: outer) body)
    (hx : x ∈ names ∨ Stmt.Declares x body) : ∀ s ∈ body, s.Spares x := by
  induction body generalizing names with
  | nil => exact fun _ hm => nomatch hm
  | cons s rest ih =>
    obtain ⟨hs, hrest⟩ := h
    rw [Stmt.after_cons] at hrest
    rcases hx with hx | ⟨name, initializer, hm, rfl⟩
    · exact List.forall_mem_cons.2 ⟨hs.spares hx, ih hrest (.inl (List.mem_append_left _ hx))⟩
    rcases List.mem_cons.1 hm with rfl | hm
    · exact List.forall_mem_cons.2 ⟨trivial, ih hrest (.inl (by simp [Stmt.declared?]))⟩
    · have hdeclares : Stmt.Declares name.lexeme rest := ⟨name, initializer, hm, rfl⟩
      refine List.forall_mem_cons.2 ⟨?_, ih hrest (.inr hdeclares)⟩
      -- A function or a class of this name would have made the later declaration one too many.
      have hfresh {t : Token} (ht : s.declared? = some t) : t.lexeme ≠ name.lexeme := fun he =>
        hrest.not_declares (List.mem_append_right _ (by simp [ht, he])) hdeclares
      cases s with
      | funDecl decl => exact hfresh rfl
      | classDecl name _ _ => exact hfresh rfl
      | _ => trivial

end LoxLang
