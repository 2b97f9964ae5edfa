import LoxLang.Proofs.Alpha.Trees
import LoxLang.Proofs.Grammar.Trees
import LoxLang.Proofs.Splitting.Moved

/-!
# Moved programs are alike

A program and the program moved differ in lines and in the numbers of mentions only.

1. `Stmt.allAlike_move`: statements that are formed.
2. `Stmt.allAlike_self`: the same statements.
-/

namespace LoxLang

variable {L : Nat → Nat → Prop} {d : Move} {P : String → Prop}

namespace Pairing.Diagonal

theorem cons {ρ : Pairing} (h : ρ.Diagonal) (x : String) : Diagonal ((x, x) :: ρ) :=
  List.forall_mem_cons.2 ⟨rfl, h⟩

theorem declare {ρ : Option Pairing} (h : (known ρ).Diagonal) (x : String) :
    (known (Pairing.declare x x ρ)).Diagonal := by
  cases ρ with
  | none => exact h
  | some ρ => exact cons h x

theorem declareAll {ρ : Pairing} (h : ρ.Diagonal) (ps : List Token) :
    (Pairing.declareAll ps (ps.map (Token.move d)) ρ).Diagonal := by
  induction ps generalizing ρ with
  | nil => exact h
  | cons p ps ih => exact ih (h.cons p.lexeme)

theorem inherit {α : Type} {ρ : Pairing} (h : ρ.Diagonal) (superclass : Option α) :
    (Pairing.inherit superclass ρ).Diagonal := by
  cases superclass with
  | none => exact h
  | some _ => exact h.cons "super"

theorem after {ρ : Option Pairing} (h : (known ρ).Diagonal) (s : Stmt) :
    (known (Pairing.after s (s.move d) ρ)).Diagonal := by
  cases s with
  | varDecl name _ => exact declare h name.lexeme
  | funDecl decl =>
    cases decl
    exact declare h _
  | classDecl name _ _ => exact declare h name.lexeme
  | _ => exact h

end Pairing.Diagonal

theorem Pairing.after_move {s : Stmt} (h : s.declared? = none) (ρ : Option Pairing) :
    after s (s.move d) ρ = ρ := by
  cases s with
  | varDecl => exact nomatch h
  | funDecl => exact nomatch h
  | classDecl => exact nomatch h
  | _ => rfl

theorem Token.alike_move (hL : ∀ n, L n (d.line n)) (t : Token) : t.Alike L (t.move d) :=
  ⟨rfl, rfl, hL t.line⟩

theorem Occurrence.alike_move (hL : ∀ n, L n (d.line n)) {ρ : Pairing} (hρ : ρ.Diagonal)
    (o : Occurrence) : o.Alike L ρ (o.move d) :=
  ⟨Pairing.pairs_diagonal hρ o.name, hL o.token.line⟩

mutual

theorem Expr.alike_move (hL : ∀ n, L n (d.line n)) {ρ : Pairing} (hρ : ρ.Diagonal) :
    (e : Expr) → e.Alike L ρ (e.move d)
  | .literal value => .literal value
  | .grouping inner => .grouping (inner.alike_move hL hρ)
  | .unary operator operand => .unary (operator.alike_move hL) (operand.alike_move hL hρ)
  | .binary left operator right =>
    .binary (left.alike_move hL hρ) (operator.alike_move hL) (right.alike_move hL hρ)
  | .logical left operator right =>
    .logical (left.alike_move hL hρ) (operator.alike_move hL) (right.alike_move hL hρ)
  | .var name => .var (name.alike_move hL hρ)
  | .assign target value => .assign (target.alike_move hL hρ) (value.alike_move hL hρ)
  | .call callee close arguments =>
    .call (callee.alike_move hL hρ) (close.alike_move hL) (Expr.allAlike_move hL hρ arguments)
  | .get object name => .get (object.alike_move hL hρ) (name.alike_move hL)
  | .set object name value =>
    .set (object.alike_move hL hρ) (name.alike_move hL) (value.alike_move hL hρ)
  | .this keyword => .this (keyword.alike_move hL hρ)
  | .super keyword method =>
    .super (hL keyword.token.line) (Pairing.pairs_diagonal hρ _) (Pairing.pairs_diagonal hρ _)
      (method.alike_move hL)

theorem Expr.allAlike_move (hL : ∀ n, L n (d.line n)) {ρ : Pairing} (hρ : ρ.Diagonal) :
    (es : List Expr) → Expr.AllAlike L ρ es (Expr.moveAll d es)
  | [] => .nil
  | e :: rest => .cons (e.alike_move hL hρ) (Expr.allAlike_move hL hρ rest)

end

mutual

theorem Stmt.alike_move (hL : ∀ n, L n (d.line n)) {ρ : Option Pairing}
    (hρ : (Pairing.known ρ).Diagonal) : (s : Stmt) → s.Formed P → s.Alike L ρ (s.move d)
  | .expression value, _ => .expression (value.alike_move hL hρ)
  | .print value, _ => .print (value.alike_move hL hρ)
  | .varDecl _ none, _ => .varDecl (fun _ => rfl) .none
  | .varDecl name (some value), _ =>
    .varDecl (fun _ => rfl) (.some (value.alike_move hL (hρ.declare name.lexeme)))
  | .block body, h => .block (Stmt.allAlike_move (ρ := some _) hL hρ body h)
  | .ifThen condition thenBranch, h =>
    .ifThen (condition.alike_move hL hρ) (thenBranch.alike_move hL hρ h.2.1)
      (Pairing.after_move h.2.2 ρ)
  | .ifElse condition thenBranch elseBranch, h =>
    .ifElse (condition.alike_move hL hρ) (thenBranch.alike_move hL hρ h.2.1.1)
      (Pairing.after_move h.2.1.2 ρ) (elseBranch.alike_move hL hρ h.2.2.1)
      (Pairing.after_move h.2.2.2 ρ)
  | .whileDo condition body, h =>
    .whileDo (condition.alike_move hL hρ) (body.alike_move hL hρ h.2.1) (Pairing.after_move h.2.2 ρ)
  | .funDecl ⟨name, params, body⟩, h =>
    .funDecl (FunctionDecl.alike_move hL (hρ.declare name.lexeme) ⟨name, params, body⟩ h)
  | .ret _ none, _ => .ret .none
  | .ret _ (some value), _ => .ret (.some (value.alike_move hL hρ))
  | .classDecl name none methods, h =>
    .classDecl rfl .none
      (FunctionDecl.allAlike_move hL ((hρ.declare name.lexeme).cons "this") methods h.2.2)
  | .classDecl name (some parent) methods, h =>
    .classDecl rfl (.some (parent.alike_move hL hρ)) (FunctionDecl.allAlike_move hL
      (((hρ.declare name.lexeme).inherit (some parent)).cons "this") methods h.2.2)

theorem FunctionDecl.alike_move (hL : ∀ n, L n (d.line n)) {ρ : Pairing} (hρ : ρ.Diagonal) :
    (decl : FunctionDecl) → decl.Formed P → decl.Alike L ρ (decl.move d)
  | ⟨_, params, body⟩, h =>
    .mk rfl (List.length_map _).symm
      (Stmt.allAlike_move (ρ := some _) hL (hρ.declareAll params) body h.2.2)

/-- Statements and the same statements moved. -/
theorem Stmt.allAlike_move (hL : ∀ n, L n (d.line n)) {ρ : Option Pairing}
    (hρ : (Pairing.known ρ).Diagonal) :
    (body : List Stmt) → Stmt.AllFormed P body → Stmt.AllAlike L ρ body (Stmt.moveAll d body)
  | [], _ => .nil
  | s :: rest, h => .cons (s.alike_move hL hρ h.1) (Stmt.allAlike_move hL (hρ.after s) rest h.2)

theorem FunctionDecl.allAlike_move (hL : ∀ n, L n (d.line n)) {ρ : Pairing} (hρ : ρ.Diagonal) :
    (methods : List FunctionDecl) → FunctionDecl.AllFormed P methods →
      FunctionDecl.AllAlike L ρ methods (FunctionDecl.moveAll d methods)
  | [], _ => .nil
  | m :: rest, h => .cons (m.alike_move hL hρ h.1) (FunctionDecl.allAlike_move hL hρ rest h.2)

end

/-! ## The program itself -/

section

variable {ρ : Pairing} {ρ? : Option Pairing}

theorem Pairing.after_self {s : Stmt} (h : s.declared? = none) (ρ : Option Pairing) :
    after s s ρ = ρ := by
  have hafter := after_move (d := .down 0) h ρ
  rwa [s.move_zero] at hafter

theorem Pairing.Diagonal.after_self (h : (Pairing.known ρ?).Diagonal) (s : Stmt) :
    (Pairing.known (Pairing.after s s ρ?)).Diagonal := by
  have hafter := h.after (d := .down 0) s
  rwa [s.move_zero] at hafter

theorem Pairing.Diagonal.declareAll_self (h : ρ.Diagonal) (ps : List Token) :
    (Pairing.declareAll ps ps ρ).Diagonal := by
  have hps : ps.map (Token.move (.down 0)) = ps := List.map_id ps
  have hall := h.declareAll (d := .down 0) ps
  rwa [hps] at hall

theorem Token.alike_self (t : Token) : t.Alike Eq t :=
  t.alike_move (d := .down 0) fun _ => rfl

theorem Expr.alike_self (hρ : ρ.Diagonal) (e : Expr) : e.Alike Eq ρ e := by
  have h := e.alike_move (L := Eq) (d := .down 0) (fun _ => rfl) hρ
  rwa [e.move_zero] at h

theorem Stmt.alike_self (hρ : (Pairing.known ρ?).Diagonal) {s : Stmt} (hf : s.Formed P) :
    s.Alike Eq ρ? s := by
  have h := s.alike_move (L := Eq) (d := .down 0) (fun _ => rfl) hρ hf
  rwa [s.move_zero] at h

theorem Stmt.allAlike_self (hρ : (Pairing.known ρ?).Diagonal) {body : List Stmt}
    (hf : Stmt.AllFormed P body) : Stmt.AllAlike Eq ρ? body body := by
  have h := Stmt.allAlike_move (L := Eq) (d := .down 0) (fun _ => rfl) hρ body hf
  rwa [Stmt.moveAll_zero] at h

theorem FunctionDecl.alike_self (hρ : ρ.Diagonal) {decl : FunctionDecl} (hf : decl.Formed P) :
    decl.Alike Eq ρ decl := by
  have h := decl.alike_move (L := Eq) (d := .down 0) (fun _ => rfl) hρ hf
  rwa [decl.move_zero] at h

theorem FunctionDecl.allAlike_self (hρ : ρ.Diagonal) {methods : List FunctionDecl}
    (hf : FunctionDecl.AllFormed P methods) : FunctionDecl.AllAlike Eq ρ methods methods := by
  have h := FunctionDecl.allAlike_move (L := Eq) (d := .down 0) (fun _ => rfl) hρ methods hf
  rwa [FunctionDecl.moveAll_zero] at h

end

end LoxLang
