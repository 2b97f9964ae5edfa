import LoxLang.Proofs.Sessions.Actions

/-!
# Larger budgets

A budget decides whether evaluation comes to its end, and nothing else: an end that is reached
within one budget is reached in the same way within every larger one.

1. `Eval.outlasting`: expressions and statements.
2. `Eval.program_of_le`: programs.
3. `Session.run_of_le`: runs of sources.
-/

namespace LoxLang

namespace Eval

variable {α β : Type}

/-- The first step ends as the second one does, unless the second one uses up its budget. -/
def Outlasts (longer step : Eval α) : Prop :=
  ∀ m, longer m = step m ∨ ∃ n, step m = .exhausted n

namespace Outlasts

theorem refl (step : Eval α) : step.Outlasts step :=
  fun _ => .inl rfl

theorem exhausted (longer : Eval α) : longer.Outlasts Step.exhausted :=
  fun m => .inr ⟨m, rfl⟩

theorem trans {first second third : Eval α} (h : first.Outlasts second)
    (h' : second.Outlasts third) : first.Outlasts third := by
  intro m
  rcases h' m with h' | h'
  · rw [← h']
    exact h m
  · exact .inr h'

theorem bind {first first' : Eval α} {next next' : α → Eval β} (h : first'.Outlasts first)
    (hnext : ∀ a, (next' a).Outlasts (next a)) :
    Outlasts (first' >>= next') (first >>= next) := by
  intro m
  change Step.bind first' next' m = Step.bind first next m ∨
    ∃ n, Step.bind first next m = .exhausted n
  unfold Step.bind
  rcases h m with h | ⟨n, h⟩
  · rw [h]
    cases first m with
    | done a n => exact hnext a n
    | failed failure n => exact .inl rfl
    | exhausted n => exact .inl rfl
  · rw [h]
    exact .inr ⟨n, rfl⟩

/-- A step may go on in a longer way if it begins in the same way. -/
theorem after {first : Eval α} {next next' : α → Eval β}
    (hnext : ∀ a, (next' a).Outlasts (next a)) : Outlasts (first >>= next') (first >>= next) :=
  (refl first).bind hnext

theorem within {step step' : Eval α} (h : step'.Outlasts step) (scope : Scope) :
    (Eval.within scope step').Outlasts (Eval.within scope step) := by
  intro m
  unfold Eval.within
  rcases h { m with scope := scope } with h | ⟨n, h⟩
  · exact .inl (by rw [h])
  · exact .inr ⟨{ n with scope := m.scope }, by rw [h]; rfl⟩

theorem counted {step step' : Eval α} (h : step'.Outlasts step) :
    (Eval.counted step').Outlasts (Eval.counted step) := by
  intro m
  unfold Eval.counted
  rcases h { m with depth := m.depth + 1 } with h | ⟨n, h⟩
  · exact .inl (by rw [h])
  · exact .inr ⟨{ n with depth := n.depth - 1 }, by rw [h]; rfl⟩

/-! ## Calls -/

variable {run run' : List Stmt → Eval Completion} (hrun : ∀ body, (run' body).Outlasts (run body))
include hrun

theorem apply (closure : Closure) (arguments : List Value) :
    (Eval.apply run' closure arguments).Outlasts (Eval.apply run closure arguments) :=
  after fun scope => ((hrun closure.decl.body).within scope).bind fun _ => refl _

theorem construct (c : Class) (arguments : List Value) :
    (Eval.construct run' c arguments).Outlasts (Eval.construct run c arguments) := by
  refine after fun object => ?_
  cases c.initializer? with
  | none => exact refl _
  | some initializer =>
    exact after fun closure => (apply hrun closure arguments).bind fun _ => refl _

theorem call (callee : Value) (line : Nat) (arguments : List Value) :
    (Eval.call run' callee line arguments).Outlasts (Eval.call run callee line arguments) := by
  refine after fun arity? => after fun arity => after fun depth => ?_
  split
  · exact refl _
  · split
    · exact refl _
    · refine counted ?_
      cases callee with
      | function id closure => exact apply hrun closure arguments
      | classValue c => exact construct hrun c arguments
      | _ => exact refl _

end Outlasts

/-! ## Expressions and statements -/

/-- Within a budget that is larger by one, everything comes to the same end. -/
structure Outlasting (n : Nat) : Prop where
  expr (e : Expr) : (expr (n + 1) e).Outlasts (expr n e)
  exprs (es : List Expr) : (exprs (n + 1) es).Outlasts (exprs n es)
  stmt (s : Stmt) : (stmt (n + 1) s).Outlasts (stmt n s)
  stmts (body : List Stmt) : (stmts (n + 1) body).Outlasts (stmts n body)
  loop (condition : Expr) (body : Stmt) :
    (loop (n + 1) condition body).Outlasts (loop n condition body)

namespace Outlasting

variable {n : Nat} (h : Outlasting n)
include h

theorem succ_expr (e : Expr) : (Eval.expr (n + 1 + 1) e).Outlasts (Eval.expr (n + 1) e) := by
  cases e with
  | grouping inner => exact h.expr inner
  | unary operator operand => exact (h.expr operand).bind fun _ => .refl _
  | binary left operator right =>
    exact (h.expr left).bind fun _ => (h.expr right).bind fun _ => .refl _
  | logical left operator right =>
    refine (h.expr left).bind fun value => ?_
    split
    · exact .refl _
    · exact h.expr right
  | assign target value => exact (h.expr value).bind fun _ => .refl _
  | call callee close arguments =>
    exact (h.expr callee).bind fun f => (h.exprs arguments).bind fun vs =>
      .call h.stmts f close.line vs
  | get object name => exact (h.expr object).bind fun _ => .refl _
  | set object name value =>
    refine (h.expr object).bind fun target => ?_
    cases target with
    | object address c => exact (h.expr value).bind fun _ => .refl _
    | _ => exact .refl _
  | _ => exact .refl _

theorem succ_stmt (s : Stmt) : (Eval.stmt (n + 1 + 1) s).Outlasts (Eval.stmt (n + 1) s) := by
  cases s with
  | expression value => exact (h.expr value).bind fun _ => .refl _
  | print value => exact (h.expr value).bind fun _ => .refl _
  | varDecl name initializer =>
    cases initializer with
    | none => exact .refl _
    | some value => exact (h.expr value).bind fun _ => .refl _
  | block body =>
    exact .after fun around => .after fun scope => (h.stmts body).within scope
  | ifThen condition thenBranch =>
    refine (h.expr condition).bind fun value => ?_
    split
    · exact h.stmt thenBranch
    · exact .refl _
  | ifElse condition thenBranch elseBranch =>
    refine (h.expr condition).bind fun value => ?_
    split
    · exact h.stmt thenBranch
    · exact h.stmt elseBranch
  | whileDo condition body => exact h.loop condition body
  | ret keyword value =>
    cases value with
    | none => exact .refl _
    | some value => exact (h.expr value).bind fun _ => .refl _
  | _ => exact .refl _

theorem succ_loop (condition : Expr) (body : Stmt) :
    (Eval.loop (n + 1 + 1) condition body).Outlasts (Eval.loop (n + 1) condition body) := by
  rw [loop_succ n, loop_succ (n + 1)]
  refine (h.expr condition).bind fun value => ?_
  split
  · refine (h.stmt body).bind fun completion => ?_
    cases completion with
    | normal => exact h.loop condition body
    | returned value => exact .refl _
  · exact .refl _

theorem succ_exprs (es : List Expr) :
    (Eval.exprs (n + 1 + 1) es).Outlasts (Eval.exprs (n + 1) es) := by
  cases es with
  | nil => exact .refl _
  | cons e rest => exact (h.expr e).bind fun _ => (h.exprs rest).bind fun _ => .refl _

theorem succ_stmts (body : List Stmt) :
    (Eval.stmts (n + 1 + 1) body).Outlasts (Eval.stmts (n + 1) body) := by
  cases body with
  | nil => exact .refl _
  | cons s rest =>
    refine (h.stmt s).bind fun completion => ?_
    cases completion with
    | normal => exact h.stmts rest
    | returned value => exact .refl _

theorem succ : Outlasting (n + 1) :=
  ⟨h.succ_expr, h.succ_exprs, h.succ_stmt, h.succ_stmts, h.succ_loop⟩

end Outlasting

/-- Whatever the budget, one more changes nothing but that evaluation may come to an end. -/
theorem outlasting (n : Nat) : Outlasting n := by
  induction n with
  | zero => exact ⟨fun _ => .exhausted _, fun _ => .exhausted _, fun _ => .exhausted _,
      fun _ => .exhausted _, fun _ _ => .exhausted _⟩
  | succ n ih => exact ih.succ

theorem outlasts_program (n : Nat) (statements : List Stmt) :
    (program (n + 1) statements).Outlasts (program n statements) := by
  induction statements with
  | nil => exact .refl _
  | cons s rest ih => exact ((outlasting n).stmt s).bind fun _ => ih

/-- A program that ends within a budget ends in the same way within every larger one. -/
theorem program_of_le {n k : Nat} (hle : n ≤ k) {statements : List Stmt} {m : Machine}
    (h : ∀ m', program n statements m ≠ .exhausted m') :
    program k statements m = program n statements m := by
  have hlonger : (program k statements).Outlasts (program n statements) := by
    induction hle with
    | refl => exact .refl _
    | step _ ih => exact (outlasts_program _ statements).trans ih
  rcases hlonger m with heq | ⟨m', hspent⟩
  · exact heq
  · exact absurd hspent (h m')

end Eval

/-- A run that ends within a budget ends in the same way within every larger one. -/
theorem Session.run_of_le (s : Session) (source : String) {n k : Nat} (hle : n ≤ k)
    (h : (s.run n source).1 ≠ .unfinished) : s.run k source = s.run n source := by
  by_cases haccepted : ∃ distances, (Reading.ofSource source s.nextId).errors = [] ∧
      resolve (Reading.ofSource source s.nextId).statements = .ok distances
  · obtain ⟨distances, herrors, hresolve⟩ := haccepted
    unfold run at h ⊢
    rw [runReading_accepted s n herrors hresolve] at h ⊢
    rw [runReading_accepted s k herrors hresolve, Eval.program_of_le hle]
    intro m hspent
    rw [hspent] at h
    exact h rfl
  · obtain ⟨errors, hrejected⟩ := rejects fun distances herrors hresolve =>
      haccepted ⟨distances, herrors, hresolve⟩
    unfold run
    rw [hrejected s k, hrejected s n]

end LoxLang
