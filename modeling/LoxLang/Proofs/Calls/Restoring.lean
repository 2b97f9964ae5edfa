import LoxLang.Machine.Evaluation

/-!
# Scopes and calls that end

Evaluation enters scopes and calls functions, and leaves both again on every way out: with a value,
with a `return`, with a failure of any kind, and with a used-up budget.

1. `Eval.restoring`: expressions and statements.
2. `Eval.Restores.call`: calls, of whatever value.
-/

namespace LoxLang

/-- Two machines in the same scope, with as many calls in progress. -/
structure Machine.SamePlace (m n : Machine) : Prop where
  scope : n.scope = m.scope
  depth : n.depth = m.depth

namespace Machine.SamePlace

theorem refl (m : Machine) : m.SamePlace m :=
  ⟨rfl, rfl⟩

theorem trans {m n k : Machine} (h : m.SamePlace n) (h' : n.SamePlace k) : m.SamePlace k :=
  ⟨h'.scope.trans h.scope, h'.depth.trans h.depth⟩

end Machine.SamePlace

namespace Eval

open Step

variable {α β : Type}

/-- However the step ends, it leaves the machine in the scope it found it in, with as many calls in
progress. -/
def Restores (step : Eval α) : Prop :=
  ∀ m : Machine, m.SamePlace (step m).machine

namespace Restores

/-! ## Steps one after another -/

theorem pure (a : α) : Restores (Pure.pure a : Eval α) :=
  fun m => .refl m

theorem exhausted : Restores (Step.exhausted : Eval α) :=
  fun m => .refl m

theorem fail (line : Nat) (fault : RuntimeFault) : Restores (Step.fail line fault : Eval α) :=
  fun m => .refl m

theorem lift (line : Nat) (result : Except RuntimeFault α) :
    Restores (Step.lift line result : Eval α) := by
  cases result with
  | ok value => exact .pure value
  | error fault => exact .fail line fault

theorem require (line : Nat) (fault : RuntimeFault) (found : Option α) :
    Restores (Step.require line fault found : Eval α) := by
  cases found with
  | some value => exact .pure value
  | none => exact .fail line fault

theorem look (view : Machine → α) : Restores (Step.look view) :=
  fun m => .refl m

theorem bind {first : Eval α} {next : α → Eval β} (h : first.Restores)
    (hnext : ∀ a, (next a).Restores) : Restores (first >>= next) := by
  intro m
  have hm := h m
  change m.SamePlace (Step.bind first next m).machine
  unfold Step.bind
  cases hrun : first m with
  | done a n =>
    rw [hrun] at hm
    exact hm.trans (hnext a n)
  | failed failure n =>
    rw [hrun] at hm
    exact hm
  | exhausted n =>
    rw [hrun] at hm
    exact hm

/-- A scope that was entered is left again. -/
theorem within {step : Eval α} (h : step.Restores) (scope : Scope) :
    Restores (Eval.within scope step) := by
  intro m
  have hdepth := (h { m with scope := scope }).depth
  unfold Eval.within
  cases hrun : step { m with scope := scope } with
  | _ =>
    rw [hrun] at hdepth
    exact ⟨rfl, hdepth⟩

/-- A call that was counted is no longer in progress. -/
theorem counted {step : Eval α} (h : step.Restores) : Restores (Eval.counted step) := by
  intro m
  obtain ⟨hscope, hdepth⟩ := h { m with depth := m.depth + 1 }
  unfold Eval.counted
  cases hrun : step { m with depth := m.depth + 1 } with
  | _ =>
    rw [hrun] at hscope hdepth
    exact ⟨hscope, congrArg (· - 1) hdepth⟩

/-! ## Single steps -/

theorem freshId : Restores Eval.freshId :=
  fun _ => ⟨rfl, rfl⟩

theorem define (name : String) (value : Value) : Restores (Eval.define name value) :=
  fun _ => ⟨rfl, rfl⟩

theorem put (address : Nat) (name : String) (value : Value) :
    Restores (Eval.put address name value) :=
  fun _ => ⟨rfl, rfl⟩

theorem openScope (around : Scope) (contents : Bindings Value) :
    Restores (Eval.openScope around contents) :=
  fun _ => ⟨rfl, rfl⟩

theorem newObject (c : Class) : Restores (Eval.newObject c) :=
  fun _ => ⟨rfl, rfl⟩

theorem setField (address : Nat) (name : String) (value : Value) :
    Restores (Eval.setField address name value) :=
  fun _ => ⟨rfl, rfl⟩

theorem tell : Restores Eval.tell :=
  fun _ => ⟨rfl, rfl⟩

/-- Output that does not fit changes no more than the sink. -/
theorem printLine (text : String) : Restores (Eval.printLine text) := by
  intro m
  unfold Eval.printLine
  split <;> exact ⟨rfl, rfl⟩

theorem flush : Restores Eval.flush := by
  intro m
  unfold Eval.flush
  split <;> exact .refl m

/-! ## Variables -/

theorem target (o : Occurrence) : Restores (Eval.target o) :=
  (look _).bind fun _ => (look _).bind fun _ => require _ _ _

theorem lookUp (o : Occurrence) : Restores (Eval.lookUp o) :=
  (target o).bind fun _ => (look _).bind fun _ => require _ _ _

theorem assign (o : Occurrence) (value : Value) : Restores (Eval.assign o value) :=
  (target o).bind fun address => put address _ value

theorem assignClass (name : Token) (value : Value) : Restores (Eval.assignClass name value) :=
  (look _).bind fun _ => (require _ _ _).bind fun address => put address _ value

theorem implicit (distance : Nat) (name : String) (line : Nat) :
    Restores (Eval.implicit distance name line) :=
  (look _).bind fun _ => require _ _ _

/-! ## Functions and objects -/

theorem function (closure : Closure) : Restores (Eval.function closure) :=
  freshId.bind fun _ => pure _

theorem bindThis (method : Closure) (object : Value) : Restores (Eval.bindThis method object) :=
  (openScope _ _).bind fun _ => pure _

theorem property (address : Nat) (c : Class) (name : Token) :
    Restores (Eval.property address c name) := by
  refine (look _).bind fun field? => ?_
  cases field? with
  | some value => exact pure value
  | none => exact (require _ _ _).bind fun m => (bindThis m _).bind function

theorem inherited (line : Nat) (method : Token) (parent this : Value) :
    Restores (Eval.inherited line method parent this) := by
  unfold Eval.inherited
  split
  · exact (require _ _ _).bind fun m => (bindThis m _).bind function
  · exact fail line _

theorem superMethod (o : Occurrence) (method : Token) : Restores (Eval.superMethod o method) :=
  (look _).bind fun _ => (require _ _ _).bind fun _ => (implicit _ _ _).bind fun _ =>
    (implicit _ _ _).bind fun _ => inherited _ _ _ _

/-! ## Calls -/

theorem arity? (callee : Value) : Restores (Eval.arity? callee) := by
  cases callee with
  | native index => exact look _
  | _ => exact pure _

theorem native (index line : Nat) (arguments : List Value) :
    Restores (Eval.native index line arguments) := by
  refine (look _).bind fun body? => ?_
  cases body? with
  | none => exact fail line _
  | some body =>
    cases body with
    | clock => exact tell
    | host run => exact lift line _

variable {run : List Stmt → Eval Completion} (hrun : ∀ body, (run body).Restores)
include hrun

theorem apply (closure : Closure) (arguments : List Value) :
    Restores (Eval.apply run closure arguments) := by
  refine (openScope _ _).bind fun scope => ((hrun _).within scope).bind fun completion => ?_
  split
  · exact look _
  · cases completion with
    | _ => exact pure _

theorem construct (c : Class) (arguments : List Value) :
    Restores (Eval.construct run c arguments) := by
  refine (newObject c).bind fun object => ?_
  cases c.initializer? with
  | none => exact pure object
  | some initializer =>
    exact (bindThis initializer object).bind fun f => (apply hrun f arguments).bind fun _ =>
      pure object

theorem call (callee : Value) (line : Nat) (arguments : List Value) :
    Restores (Eval.call run callee line arguments) := by
  refine (arity? callee).bind fun _ => (require _ _ _).bind fun _ => (look _).bind fun _ => ?_
  split
  · exact fail line _
  · split
    · exact fail line _
    · refine counted ?_
      cases callee with
      | native index => exact native index line arguments
      | function id closure => exact apply hrun closure arguments
      | classValue c => exact construct hrun c arguments
      | _ => exact fail line _

omit hrun

/-! ## Classes -/

theorem superclass? (superclass : Option Occurrence) : Restores (Eval.superclass? superclass) := by
  cases superclass with
  | none => exact pure none
  | some o =>
    refine (lookUp o).bind fun value => ?_
    cases value with
    | classValue c => exact pure (some c)
    | _ => exact fail _ _

theorem makeClass (name : Token) (parent : Option Class) (methods : List FunctionDecl) :
    Restores (Eval.makeClass name parent methods) := by
  refine (define _ _).bind fun _ => bind (α := Scope) ?_ fun scope => freshId.bind fun _ =>
    assignClass _ _
  refine (look _).bind fun scope => ?_
  cases parent with
  | none => exact pure scope
  | some parent => exact openScope scope _

theorem classDecl (name : Token) (superclass : Option Occurrence) (methods : List FunctionDecl) :
    Restores (Eval.classDecl name superclass methods) :=
  (superclass? superclass).bind fun parent => makeClass name parent methods

end Restores

/-! ## Expressions and statements -/

/-- Everything that is evaluated within a budget restores scope and calls. -/
structure Restoring (n : Nat) : Prop where
  expr (e : Expr) : (expr n e).Restores
  exprs (es : List Expr) : (exprs n es).Restores
  stmt (s : Stmt) : (stmt n s).Restores
  stmts (body : List Stmt) : (stmts n body).Restores
  loop (condition : Expr) (body : Stmt) : (loop n condition body).Restores

namespace Restoring

variable {n : Nat} (h : Restoring n)
include h

theorem succ_expr (e : Expr) : (Eval.expr (n + 1) e).Restores := by
  cases e with
  | literal value => exact .pure _
  | grouping inner => exact h.expr inner
  | unary operator operand => exact (h.expr operand).bind fun _ => .lift _ _
  | binary left operator right =>
    exact (h.expr left).bind fun _ => (h.expr right).bind fun _ => .lift _ _
  | logical left operator right =>
    refine (h.expr left).bind fun value => ?_
    split
    · exact .pure value
    · exact h.expr right
  | var name => exact .lookUp name
  | assign target value =>
    exact (h.expr value).bind fun v => (Restores.assign target v).bind fun _ => .pure v
  | call callee close arguments =>
    exact (h.expr callee).bind fun f => (h.exprs arguments).bind fun vs =>
      .call h.stmts f close.line vs
  | get object name =>
    refine (h.expr object).bind fun value => ?_
    cases value with
    | object address c => exact .property address c name
    | _ => exact .fail _ _
  | set object name value =>
    refine (h.expr object).bind fun target => ?_
    cases target with
    | object address c =>
      exact (h.expr value).bind fun v => (Restores.setField address _ v).bind fun _ => .pure v
    | _ => exact .fail _ _
  | this keyword => exact .lookUp keyword
  | super keyword method => exact .superMethod keyword method

theorem succ_stmt (s : Stmt) : (Eval.stmt (n + 1) s).Restores := by
  cases s with
  | expression value => exact (h.expr value).bind fun _ => .pure _
  | print value =>
    exact (h.expr value).bind fun v => (Restores.printLine v.text).bind fun _ => .pure _
  | varDecl name initializer =>
    cases initializer with
    | none => exact (Restores.define _ _).bind fun _ => .pure _
    | some value =>
      exact (h.expr value).bind fun v => (Restores.define _ v).bind fun _ => .pure _
  | block body =>
    exact (Restores.look _).bind fun around => (Restores.openScope around []).bind fun scope =>
      (h.stmts body).within scope
  | ifThen condition thenBranch =>
    refine (h.expr condition).bind fun value => ?_
    split
    · exact h.stmt thenBranch
    · exact .pure _
  | ifElse condition thenBranch elseBranch =>
    refine (h.expr condition).bind fun value => ?_
    split
    · exact h.stmt thenBranch
    · exact h.stmt elseBranch
  | whileDo condition body => exact h.loop condition body
  | funDecl decl =>
    exact (Restores.look _).bind fun scope => (Restores.function _).bind fun f =>
      (Restores.define _ f).bind fun _ => .pure _
  | ret keyword value =>
    cases value with
    | none => exact .pure _
    | some value => exact (h.expr value).bind fun _ => .pure _
  | classDecl name superclass methods =>
    exact (Restores.classDecl name superclass methods).bind fun _ => .pure _

theorem succ_loop (condition : Expr) (body : Stmt) :
    (Eval.loop (n + 1) condition body).Restores := by
  rw [loop_succ]
  refine (h.expr condition).bind fun value => ?_
  split
  · refine (h.stmt body).bind fun completion => ?_
    cases completion with
    | normal => exact h.loop condition body
    | returned value => exact .pure _
  · exact .pure _

theorem succ_exprs (es : List Expr) : (Eval.exprs (n + 1) es).Restores := by
  cases es with
  | nil => exact .pure []
  | cons e rest => exact (h.expr e).bind fun _ => (h.exprs rest).bind fun _ => .pure _

theorem succ_stmts (body : List Stmt) : (Eval.stmts (n + 1) body).Restores := by
  cases body with
  | nil => exact .pure _
  | cons s rest =>
    refine (h.stmt s).bind fun completion => ?_
    cases completion with
    | normal => exact h.stmts rest
    | returned value => exact .pure _

theorem succ : Restoring (n + 1) :=
  ⟨h.succ_expr, h.succ_exprs, h.succ_stmt, h.succ_stmts, h.succ_loop⟩

end Restoring

/-- Whatever the budget, all parts of a program restore scope and calls. -/
theorem restoring (n : Nat) : Restoring n := by
  induction n with
  | zero => exact ⟨fun _ => .exhausted, fun _ => .exhausted, fun _ => .exhausted,
      fun _ => .exhausted, fun _ _ => .exhausted⟩
  | succ n ih => exact ih.succ

theorem restores_program (n : Nat) (statements : List Stmt) :
    (program n statements).Restores := by
  induction statements with
  | nil => exact .flush
  | cons s rest ih => exact ((restoring n).stmt s).bind fun _ => ih

end Eval

end LoxLang
