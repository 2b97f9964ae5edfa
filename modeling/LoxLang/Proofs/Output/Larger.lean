import LoxLang.Proofs.Output.Writes

/-!
# Output within larger budgets

What is printed within one budget is printed within every larger one too, and if there is more then
that comes after it.

1. `Eval.Outprints.bind`, `Eval.Outprints.call`: steps one after another, and calls.
2. `Eval.outprinting`: expressions and statements.
3. `Eval.outprints_program`: programs.
-/

namespace LoxLang

namespace Eval

variable {α β : Type}

/-- Two steps on a machine, of which the first one may have the larger budget: both do the same, or
the second one uses up its budget and the first one goes on. -/
inductive OutprintsOn (longer step : Eval α) (m : Machine) : Prop
  | same {bytes : Array UInt8} {ending : Outcome α} :
      step.Writes m bytes ending → longer.Writes m bytes ending → OutprintsOn longer step m
  | further {bytes more all : Array UInt8} {n : Machine} {ending : Outcome α} :
      step.Writes m bytes (.exhausted n) → longer.Writes m all ending → all = bytes ++ more →
        OutprintsOn longer step m

/-- The first step prints what the second one does, and more only if the second one uses up its
budget. -/
def Outprints (longer step : Eval α) : Prop :=
  ∀ m, OutprintsOn longer step m

namespace Outprints

theorem writes {longer step : Eval α} (h : longer.Outprints step) (m : Machine) :
    ∃ bytes ending, longer.Writes m bytes ending := by
  cases h m with
  | same _ hlonger => exact ⟨_, _, hlonger⟩
  | further _ hlonger _ => exact ⟨_, _, hlonger⟩

/-! ## Single steps -/

theorem of_silent {step : Eval α} (h : step.Silent) : step.Outprints step :=
  fun m => .same (.of_silent h m) (.of_silent h m)

theorem printLine (text : String) : (Eval.printLine text).Outprints (Eval.printLine text) :=
  fun m => .same (.printLine text m) (.printLine text m)

theorem flush : Eval.flush.Outprints Eval.flush :=
  fun m => .same (.flush m) (.flush m)

/-- Nothing is printed within a budget that is used up from the beginning. -/
theorem exhausted {longer step : Eval α} (h : longer.Outprints step) :
    longer.Outprints Step.exhausted := by
  intro m
  obtain ⟨bytes, ending, hlonger⟩ := h.writes m
  exact .further (.of_silent .exhausted m) hlonger Array.empty_append.symm

/-! ## Steps one after another -/

theorem bind {first first' : Eval α} {next next' : α → Eval β} (h : first'.Outprints first)
    (hnext : ∀ a, (next' a).Outprints (next a)) :
    Outprints (first' >>= next') (first >>= next) := by
  intro m
  cases h m with
  | @same bytes ending hfirst hfirst' =>
    cases ending with
    | done a n =>
      cases hnext a n with
      | same hstep hlonger => exact .same (hfirst.bind_done hstep) (hfirst'.bind_done hlonger)
      | further hstep hlonger hall =>
        exact .further (hfirst.bind_done hstep) (hfirst'.bind_done hlonger)
          (by rw [hall, Array.append_assoc])
    | failed failure n => exact .same (hfirst.bind_failed next) (hfirst'.bind_failed next')
    | exhausted n => exact .same (hfirst.bind_exhausted next) (hfirst'.bind_exhausted next')
  | @further bytes more all n ending hfirst hfirst' hall =>
    have hspent := hfirst.bind_exhausted next
    cases ending with
    | done a k =>
      obtain ⟨others, _, hlonger⟩ := (hnext a).writes k
      exact .further hspent (hfirst'.bind_done hlonger) (by rw [hall, Array.append_assoc])
    | failed failure k => exact .further hspent (hfirst'.bind_failed next') hall
    | exhausted k => exact .further hspent (hfirst'.bind_exhausted next') hall

/-- Silent steps go before steps that print. -/
theorem after {first : Eval α} {next next' : α → Eval β} (h : first.Silent)
    (hnext : ∀ a, (next' a).Outprints (next a)) :
    Outprints (first >>= next') (first >>= next) :=
  (of_silent h).bind hnext

/-- Silent steps go behind steps that print. -/
theorem before {first first' : Eval α} {next : α → Eval β} (h : first'.Outprints first)
    (hnext : ∀ a, (next a).Silent) : Outprints (first' >>= next) (first >>= next) :=
  h.bind fun a => of_silent (hnext a)

theorem within {step step' : Eval α} (h : step'.Outprints step) (scope : Scope) :
    (Eval.within scope step').Outprints (Eval.within scope step) := by
  intro m
  cases h { m with scope := scope } with
  | same hstep hlonger => exact .same hstep.within hlonger.within
  | further hstep hlonger hall => exact .further hstep.within hlonger.within hall

theorem counted {step step' : Eval α} (h : step'.Outprints step) :
    (Eval.counted step').Outprints (Eval.counted step) := by
  intro m
  cases h { m with depth := m.depth + 1 } with
  | same hstep hlonger => exact .same hstep.counted hlonger.counted
  | further hstep hlonger hall => exact .further hstep.counted hlonger.counted hall

/-! ## Calls -/

variable {run run' : List Stmt → Eval Completion} (hrun : ∀ body, (run' body).Outprints (run body))
include hrun

theorem apply (closure : Closure) (arguments : List Value) :
    (Eval.apply run' closure arguments).Outprints (Eval.apply run closure arguments) := by
  refine after (.openScope _ _) fun scope => ((hrun _).within scope).before fun completion => ?_
  split
  · exact .look fun _ _ => rfl
  · cases completion with
    | _ => exact .pure _

theorem construct (c : Class) (arguments : List Value) :
    (Eval.construct run' c arguments).Outprints (Eval.construct run c arguments) := by
  refine after (.newObject c) fun object => ?_
  cases c.initializer? with
  | none => exact of_silent (.pure object)
  | some initializer =>
    exact after (.bindThis initializer object) fun closure =>
      (apply hrun closure arguments).before fun _ => .pure object

theorem call (callee : Value) (line : Nat) (arguments : List Value) :
    (Eval.call run' callee line arguments).Outprints (Eval.call run callee line arguments) := by
  refine after (.arity? callee) fun _ => after (.require _ _ _) fun _ =>
    after (.look fun _ _ => rfl) fun _ => ?_
  split
  · exact of_silent (.fail line _)
  · split
    · exact of_silent (.fail line _)
    · refine counted ?_
      cases callee with
      | native index => exact of_silent (.native index line arguments)
      | function id closure => exact apply hrun closure arguments
      | classValue c => exact construct hrun c arguments
      | _ => exact of_silent (.fail line _)

end Outprints

/-! ## Expressions and statements -/

/-- Within the second budget everything prints what it does within the first one, and more only if
that is used up. -/
structure Outprinting (n k : Nat) : Prop where
  expr (e : Expr) : (expr k e).Outprints (expr n e)
  exprs (es : List Expr) : (exprs k es).Outprints (exprs n es)
  stmt (s : Stmt) : (stmt k s).Outprints (stmt n s)
  stmts (body : List Stmt) : (stmts k body).Outprints (stmts n body)
  loop (condition : Expr) (body : Stmt) : (loop k condition body).Outprints (loop n condition body)

namespace Outprinting

variable {n k : Nat}

theorem zero (h : Outprinting n k) : Outprinting 0 k where
  expr e := (h.expr e).exhausted
  exprs es := (h.exprs es).exhausted
  stmt s := (h.stmt s).exhausted
  stmts body := (h.stmts body).exhausted
  loop condition body := (h.loop condition body).exhausted

theorem refl_zero : Outprinting 0 0 where
  expr _ := .of_silent .exhausted
  exprs _ := .of_silent .exhausted
  stmt _ := .of_silent .exhausted
  stmts _ := .of_silent .exhausted
  loop _ _ := .of_silent .exhausted

variable (h : Outprinting n k)
include h

theorem succ_expr (e : Expr) : (Eval.expr (k + 1) e).Outprints (Eval.expr (n + 1) e) := by
  cases e with
  | literal value => exact .of_silent (.pure _)
  | grouping inner => exact h.expr inner
  | unary operator operand => exact (h.expr operand).before fun _ => .lift _ _
  | binary left operator right =>
    exact (h.expr left).bind fun _ => (h.expr right).before fun _ => .lift _ _
  | logical left operator right =>
    refine (h.expr left).bind fun value => ?_
    split
    · exact .of_silent (.pure value)
    · exact h.expr right
  | var name => exact .of_silent (.lookUp name)
  | assign target value =>
    exact (h.expr value).before fun v => (Silent.assign target v).bind fun _ => .pure v
  | call callee close arguments =>
    exact (h.expr callee).bind fun f => (h.exprs arguments).bind fun vs =>
      .call h.stmts f close.line vs
  | get object name =>
    refine (h.expr object).before fun value => ?_
    cases value with
    | object address c => exact .property address c name
    | _ => exact .fail _ _
  | set object name value =>
    refine (h.expr object).bind fun target => ?_
    cases target with
    | object address c =>
      exact (h.expr value).before fun v => (Silent.setField address _ v).bind fun _ => .pure v
    | _ => exact .of_silent (.fail _ _)
  | this keyword => exact .of_silent (.lookUp keyword)
  | super keyword method => exact .of_silent (.superMethod keyword method)

theorem succ_stmt (s : Stmt) : (Eval.stmt (k + 1) s).Outprints (Eval.stmt (n + 1) s) := by
  cases s with
  | expression value => exact (h.expr value).before fun _ => .pure _
  | print value =>
    exact (h.expr value).bind fun v => (Outprints.printLine v.text).before fun _ => .pure _
  | varDecl name initializer =>
    cases initializer with
    | none => exact .of_silent ((Silent.define _ _).bind fun _ => .pure _)
    | some value =>
      exact (h.expr value).before fun v => (Silent.define _ v).bind fun _ => .pure _
  | block body =>
    exact .after (.look fun _ _ => rfl) fun around => .after (.openScope around []) fun scope =>
      (h.stmts body).within scope
  | ifThen condition thenBranch =>
    refine (h.expr condition).bind fun value => ?_
    split
    · exact h.stmt thenBranch
    · exact .of_silent (.pure _)
  | ifElse condition thenBranch elseBranch =>
    refine (h.expr condition).bind fun value => ?_
    split
    · exact h.stmt thenBranch
    · exact h.stmt elseBranch
  | whileDo condition body => exact h.loop condition body
  | funDecl decl =>
    exact .of_silent ((Silent.look fun _ _ => rfl).bind fun scope => (Silent.function _).bind
      fun f => (Silent.define _ f).bind fun _ => .pure _)
  | ret keyword value =>
    cases value with
    | none => exact .of_silent (.pure _)
    | some value => exact (h.expr value).before fun _ => .pure _
  | classDecl name superclass methods =>
    exact .of_silent ((Silent.classDecl name superclass methods).bind fun _ => .pure _)

theorem succ_loop (condition : Expr) (body : Stmt) :
    (Eval.loop (k + 1) condition body).Outprints (Eval.loop (n + 1) condition body) := by
  rw [loop_succ n, loop_succ k]
  refine (h.expr condition).bind fun value => ?_
  split
  · refine (h.stmt body).bind fun completion => ?_
    cases completion with
    | normal => exact h.loop condition body
    | returned value => exact .of_silent (.pure _)
  · exact .of_silent (.pure _)

theorem succ_exprs (es : List Expr) :
    (Eval.exprs (k + 1) es).Outprints (Eval.exprs (n + 1) es) := by
  cases es with
  | nil => exact .of_silent (.pure [])
  | cons e rest => exact (h.expr e).bind fun _ => (h.exprs rest).before fun _ => .pure _

theorem succ_stmts (body : List Stmt) :
    (Eval.stmts (k + 1) body).Outprints (Eval.stmts (n + 1) body) := by
  cases body with
  | nil => exact .of_silent (.pure _)
  | cons s rest =>
    refine (h.stmt s).bind fun completion => ?_
    cases completion with
    | normal => exact h.stmts rest
    | returned value => exact .of_silent (.pure _)

theorem succ : Outprinting (n + 1) (k + 1) :=
  ⟨h.succ_expr, h.succ_exprs, h.succ_stmt, h.succ_stmts, h.succ_loop⟩

end Outprinting

/-- A larger budget has as much printed, and more only if the smaller one is used up. -/
theorem outprinting {n k : Nat} (hle : n ≤ k) : Outprinting n k := by
  induction k generalizing n with
  | zero =>
    obtain rfl := Nat.le_zero.1 hle
    exact .refl_zero
  | succ k ih =>
    cases n with
    -- What the larger budget has printed is known from the step where both are as large.
    | zero => exact (ih (Nat.le_refl k)).succ.zero
    | succ n => exact (ih (Nat.le_of_succ_le_succ hle)).succ

theorem outprints_program {n k : Nat} (hle : n ≤ k) (statements : List Stmt) :
    (program k statements).Outprints (program n statements) := by
  induction statements with
  | nil => exact .flush
  | cons s rest ih => exact ((outprinting hle).stmt s).bind fun _ => ih

end Eval

end LoxLang
