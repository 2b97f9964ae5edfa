import LoxLang.Machine.Evaluation
import LoxLang.Proofs.Scoping.Soundness
import LoxLang.Proofs.Splitting.Resolving

/-!
# Statements that do not return

A `return` outside every function is a fault of the resolution. So no statement of a program that
is run completes with one: all of them complete normally, if they complete.

1. `Stmt.returns_of_resolve`: what the resolution lets pass.
2. `Eval.quiet`: how it completes.
-/

namespace LoxLang

mutual

/-- Is there a `return` in the statement itself, and not in a function that it declares? -/
def Stmt.returns : Stmt → Bool
  | .ret _ _ => true
  | .block body => Stmt.anyReturns body
  | .ifThen _ thenBranch => thenBranch.returns
  | .ifElse _ thenBranch elseBranch => thenBranch.returns || elseBranch.returns
  | .whileDo _ body => body.returns
  | _ => false

/-- Is there a `return` in one of some statements? -/
def Stmt.anyReturns : List Stmt → Bool
  | [] => false
  | s :: rest => s.returns || Stmt.anyReturns rest

end

theorem Stmt.returns_of_mem {body : List Stmt} (h : Stmt.anyReturns body = false) {s : Stmt}
    (hs : s ∈ body) : s.returns = false := by
  induction body with
  | nil => exact nomatch hs
  | cons t rest ih =>
    obtain ⟨hfirst, hrest⟩ := Bool.or_eq_false_iff.1 h
    rcases List.mem_cons.1 hs with rfl | hs
    · exact hfirst
    · exact ih hrest hs

/-! ## Resolution -/

namespace Resolution

/-- The place is outside every function. -/
def Outside (r : Resolution) : Prop :=
  r.inFunction = .outside

theorem Outside.of_bodies {r r' : Resolution} (h : r.Outside) (hbodies : r'.bodies = r.bodies) :
    r'.Outside :=
  (congrArg Prod.fst hbodies).trans h

theorem not_clean_leaveFunction {r : Resolution} (h : r.Outside) (keyword : Token)
    (hasValue : Bool) : (r.leaveFunction keyword hasValue).errors ≠ [] := by
  unfold leaveFunction
  rw [h]
  exact not_clean_report r keyword .returnOutsideFunction

end Resolution

mutual

theorem Stmt.returns_of_resolve : (s : Stmt) → (r : Resolution) → r.Outside →
    (s.resolve r).errors = [] → s.returns = false
  | .expression _, _, _, _ | .print _, _, _, _ | .varDecl _ _, _, _, _ => rfl
  | .funDecl _, _, _, _ | .classDecl _ _ _, _, _, _ => rfl
  | .ret keyword none, _, h, hc => absurd hc (Resolution.not_clean_leaveFunction h keyword false)
  | .ret keyword (some value), _, h, hc =>
    absurd ((value.resolve_leads _).clean hc) (Resolution.not_clean_leaveFunction h keyword true)
  | .block body, r, h, hc => Stmt.anyReturns_of_resolve body r.enter h hc
  | .ifThen condition thenBranch, r, h, hc =>
    thenBranch.returns_of_resolve _ (h.of_bodies (condition.bodies_resolve r)) hc
  | .ifElse condition thenBranch elseBranch, r, h, hc => by
    have h₁ := h.of_bodies (condition.bodies_resolve r)
    have hthen := thenBranch.returns_of_resolve _ h₁ ((elseBranch.resolve_leads _).clean hc)
    have helse := elseBranch.returns_of_resolve _ (h₁.of_bodies (thenBranch.bodies_resolve _)) hc
    simp [Stmt.returns, hthen, helse]
  | .whileDo condition body, r, h, hc =>
    body.returns_of_resolve _ (h.of_bodies (condition.bodies_resolve r)) hc

theorem Stmt.anyReturns_of_resolve : (body : List Stmt) → (r : Resolution) → r.Outside →
    (Stmt.resolveAll body r).errors = [] → Stmt.anyReturns body = false
  | [], _, _, _ => rfl
  | s :: rest, r, h, hc => by
    have hfirst := s.returns_of_resolve r h ((Stmt.resolveAll_leads rest _).clean hc)
    have hrest := Stmt.anyReturns_of_resolve rest _ (h.of_bodies (s.bodies_resolve r)) hc
    simp [Stmt.anyReturns, hfirst, hrest]

end

/-! ## Evaluation -/

namespace Eval

variable {α β : Type} {Q : α → Prop} {R : β → Prop}

/-- If the step has a result then it is such a one. -/
def Yields (step : Eval α) (Q : α → Prop) : Prop :=
  ∀ m a n, step m = .done a n → Q a

namespace Yields

theorem pure {a : α} (h : Q a) : Yields (Pure.pure a : Eval α) Q := by
  intro m b n hrun
  injection hrun with hrun
  exact hrun ▸ h

theorem exhausted : Yields (Step.exhausted : Eval α) Q :=
  fun _ _ _ h => nomatch h

theorem bind {first : Eval β} {next : β → Eval α} (h : first.Yields R)
    (hnext : ∀ b, R b → (next b).Yields Q) : Yields (first >>= next) Q := by
  intro m a n hrun
  change Step.bind first next m = .done a n at hrun
  unfold Step.bind at hrun
  cases hfirst : first m with
  | done b k =>
    rw [hfirst] at hrun
    exact hnext b (h m b k hfirst) k a n hrun
  | failed failure k =>
    rw [hfirst] at hrun
    exact nomatch hrun
  | exhausted k =>
    rw [hfirst] at hrun
    exact nomatch hrun

/-- What comes first may have any result. -/
theorem after {first : Eval β} {next : β → Eval α} (hnext : ∀ b, (next b).Yields Q) :
    Yields (first >>= next) Q :=
  bind (R := fun _ => True) (fun _ _ _ _ => trivial) fun b _ => hnext b

theorem within {step : Eval α} (h : step.Yields Q) (scope : Scope) :
    Yields (Eval.within scope step) Q := by
  intro m a n hrun
  change (step { m with scope := scope }).mapMachine _ = .done a n at hrun
  cases hstep : step { m with scope := scope } with
  | done b k =>
    rw [hstep] at hrun
    injection hrun with hrun
    exact hrun ▸ h _ b k hstep
  | failed failure k =>
    rw [hstep] at hrun
    exact nomatch hrun
  | exhausted k =>
    rw [hstep] at hrun
    exact nomatch hrun

end Yields

/-- Within a budget, what has no `return` completes normally. -/
structure Quiet (n : Nat) : Prop where
  stmt : ∀ s : Stmt, s.returns = false → (stmt n s).Yields (· = .normal)
  stmts : ∀ body, Stmt.anyReturns body = false → (stmts n body).Yields (· = .normal)
  loop : ∀ condition body, body.returns = false → (loop n condition body).Yields (· = .normal)

namespace Quiet

variable {n : Nat} (ih : Quiet n)
include ih

theorem stmt_succ (s : Stmt) (h : s.returns = false) :
    (Eval.stmt (n + 1) s).Yields (· = .normal) := by
  cases s with try simp only [Eval.stmt]
  | expression value => exact .after fun _ => .pure rfl
  | print value => exact .after fun _ => .after fun _ => .pure rfl
  | varDecl name initializer =>
    cases initializer with simp only [Eval.stmt]
    | none => exact .after fun _ => .pure rfl
    | some value => exact .after fun _ => .after fun _ => .pure rfl
  | block body => exact .after fun _ => .after fun scope => (ih.stmts body h).within scope
  | ifThen condition thenBranch =>
    refine .after fun value => ?_
    split
    · exact ih.stmt thenBranch h
    · exact .pure rfl
  | ifElse condition thenBranch elseBranch =>
    obtain ⟨hthen, helse⟩ := Bool.or_eq_false_iff.1 h
    refine .after fun value => ?_
    split
    · exact ih.stmt thenBranch hthen
    · exact ih.stmt elseBranch helse
  | whileDo condition body => exact ih.loop condition body h
  | funDecl decl => exact .after fun _ => .after fun _ => .after fun _ => .pure rfl
  | ret keyword value => exact nomatch h
  | classDecl name superclass methods => exact .after fun _ => .pure rfl

theorem stmts_succ (body : List Stmt) (h : Stmt.anyReturns body = false) :
    (Eval.stmts (n + 1) body).Yields (· = .normal) := by
  cases body with simp only [Eval.stmts]
  | nil => exact .pure rfl
  | cons s rest =>
    obtain ⟨hfirst, hrest⟩ := Bool.or_eq_false_iff.1 h
    refine (ih.stmt s hfirst).bind fun completion hnormal => ?_
    rw [hnormal]
    exact ih.stmts rest hrest

theorem loop_succ (condition : Expr) (body : Stmt) (h : body.returns = false) :
    (Eval.loop (n + 1) condition body).Yields (· = .normal) := by
  rw [Eval.loop_succ]
  refine .after fun value => ?_
  split
  · refine (ih.stmt body h).bind fun completion hnormal => ?_
    rw [hnormal]
    exact ih.loop condition body h
  · exact .pure rfl

end Quiet

theorem quiet : ∀ n, Quiet n
  | 0 => ⟨fun _ _ => .exhausted, fun _ _ => .exhausted, fun _ _ _ => .exhausted⟩
  | n + 1 =>
    have ih := quiet n
    ⟨ih.stmt_succ, ih.stmts_succ, ih.loop_succ⟩

end Eval

/-- No statement of a program that is resolved without a fault returns. -/
theorem not_returned_of_resolve {statements : List Stmt} {distances : Distances}
    (h : resolve statements = .ok distances) {s : Stmt} (hs : s ∈ statements) (budget : Nat)
    (m : Machine) (value : Value) (n : Machine) :
    Eval.stmt budget s m ≠ .done (.returned value) n := by
  have hclean := (resolve_eq_ok.1 h).1
  have hreturns := Stmt.returns_of_mem
    (Stmt.anyReturns_of_resolve statements Resolution.start rfl hclean) hs
  intro hrun
  exact nomatch (Eval.quiet budget).stmt s hreturns m _ n hrun

end LoxLang
