import LoxLang.Proofs.Locations.Classes

/-!
# The two evaluations in step

If the mentions in a program are traced, then evaluation with frames and distances and evaluation
with locations go the same way, part by part: with the same budget they end in the same way at
machines that correspond.

1. `inStep`: expressions and statements.
2. `simulates_program`: programs.
-/

namespace LoxLang

open Located (Places)

/-- The spot behind a statement. -/
def Spot.after (p : Spot) (s : Stmt) : Spot :=
  { p with around := s.after p.around }

/-- Within a budget, all parts of programs are evaluated alike. -/
structure InStep (n : Nat) : Prop where
  expr : ∀ {w : World} {p : Spot} {e : Expr}, e.Scoped w.knowledge p.around p.pending →
    Simulates w p (Stays p World.Same) (Eval.expr n e) (Located.Eval.expr n e)
  exprs : ∀ {w : World} {p : Spot} {es : List Expr},
    Expr.AllScoped w.knowledge p.around p.pending es →
      Simulates w p (Stays p fun w' => List.Forall₂ w'.Same) (Eval.exprs n es)
        (Located.Eval.exprs n es)
  stmt : ∀ {w : World} {p : Spot} {s : Stmt}, p.pending = none → s.Scoped w.knowledge p.around →
    Simulates w p (Stays (p.after s) SameCompletion) (Eval.stmt n s) (Located.Eval.stmt n s)
  stmts : RunAlike (Eval.stmts n) (Located.Eval.stmts n)
  loop : ∀ {w : World} {p : Spot} {condition : Expr} {body : Stmt}, p.pending = none →
    condition.Scoped w.knowledge p.around none → body.Scoped w.knowledge p.around →
    body.after p.around = p.around →
      Simulates w p (Stays p SameCompletion) (Eval.loop n condition body)
        (Located.Eval.loop n condition body)

variable {n : Nat} {w : World} {p : Spot}

theorem inStep_zero : InStep 0 where
  expr _ := simulates_exhausted
  exprs _ := simulates_exhausted
  stmt _ _ := simulates_exhausted
  stmts _ _ := simulates_exhausted
  loop _ _ _ _ := simulates_exhausted

/-! ## Expressions -/

theorem InStep.expr_succ (ih : InStep n) {e : Expr} (h : e.Scoped w.knowledge p.around p.pending) :
    Simulates w p (Stays p World.Same) (Eval.expr (n + 1) e) (Located.Eval.expr (n + 1) e) := by
  cases e with simp only [Eval.expr, Located.Eval.expr]
  | literal value => exact .pure ⟨rfl, Value.ofLiteral_alike value⟩
  | grouping inner => exact ih.expr h
  | unary operator operand =>
    refine (ih.expr (e := operand) h).bind ?_
    rintro w₁ p₁ v v' - - ⟨rfl, hv⟩
    exact (simulates_lift _ (Operator.unary_alike operator.kind hv)).mono
      fun ⟨hw, hp, hsame⟩ => ⟨hp, hw ▸ hsame⟩
  | binary left operator right =>
    refine (ih.expr h.1).bind ?_
    rintro w₁ p₁ v v' hw₁ - ⟨rfl, hv⟩
    refine (ih.expr (hw₁.knowledge ▸ h.2)).bind ?_
    rintro w₂ p₂ u u' hw₂ - ⟨rfl, hu⟩
    exact (simulates_lift _
      (Operator.binary_alike operator.kind (hv.mono hw₂.le.likeness) hu)).mono
      fun ⟨hw, hp, hsame⟩ => ⟨hp, hw ▸ hsame⟩
  | logical left operator right =>
    refine (ih.expr h.1).bind ?_
    rintro w₁ p₁ v v' hw₁ - ⟨rfl, hv⟩
    rw [Operator.decides_eq operator.kind hv]
    split
    · exact .pure ⟨rfl, hv⟩
    · exact ih.expr (hw₁.knowledge ▸ h.2)
  | var name => exact simulates_lookUp h.1 h.2
  | assign target value =>
    refine (ih.expr h.1).bind ?_
    rintro w₁ p₁ v v' hw₁ - ⟨rfl, hv⟩
    refine (simulates_assign (hw₁.knowledge ▸ h.2) hv).bind ?_
    rintro w₂ p₂ u u' hw₂ - ⟨rfl, -⟩
    exact .pure ⟨rfl, hv.mono hw₂.le.likeness⟩
  | call callee close arguments =>
    refine (ih.expr h.1).bind ?_
    rintro w₁ p₁ v v' hw₁ - ⟨rfl, hv⟩
    refine (ih.exprs (hw₁.knowledge ▸ h.2)).bind ?_
    rintro w₂ p₂ vs vs' hw₂ - ⟨rfl, hvs⟩
    exact simulates_call ih.stmts (hv.mono hw₂.le.likeness) close.line hvs
  | get object name =>
    refine (ih.expr (e := object) h).bind ?_
    rintro w₁ p₁ v v' - - ⟨rfl, hv⟩
    cases hv with
    | object address hc => exact simulates_property address hc name
    | _ => exact simulates_fail _ _
  | set object name value =>
    refine (ih.expr h.1).bind ?_
    rintro w₁ p₁ v v' hw₁ - ⟨rfl, hv⟩
    cases hv with
    | object address hc =>
      refine (ih.expr (hw₁.knowledge ▸ h.2)).bind ?_
      rintro w₂ p₂ u u' - - ⟨rfl, hu⟩
      refine (simulates_setField address name.lexeme hu).bind ?_
      rintro w₃ p₃ - - - - ⟨rfl, rfl, -⟩
      exact .pure ⟨rfl, hu⟩
    | _ => exact simulates_fail _ _
  | this keyword =>
    intro m m' hm
    refine simulates_lookUp h.1 (fun hp => ?_) m m' hm
    exact (hm.present.isName hp).ne_this h.2.1
  | super keyword method => exact simulates_superMethod h.1 h.2.1 h.2.2 method

theorem InStep.exprs_succ (ih : InStep n) {es : List Expr}
    (h : Expr.AllScoped w.knowledge p.around p.pending es) :
    Simulates w p (Stays p fun w' => List.Forall₂ w'.Same) (Eval.exprs (n + 1) es)
      (Located.Eval.exprs (n + 1) es) := by
  cases es with simp only [Eval.exprs, Located.Eval.exprs]
  | nil => exact .pure ⟨rfl, .nil⟩
  | cons e rest =>
    refine (ih.expr h.1).bind ?_
    rintro w₁ p₁ v v' hw₁ - ⟨rfl, hv⟩
    refine (ih.exprs (hw₁.knowledge ▸ h.2)).bind ?_
    rintro w₂ p₂ vs vs' hw₂ - ⟨rfl, hvs⟩
    exact .pure ⟨rfl, .cons (hv.mono hw₂.le.likeness) hvs⟩

/-! ## Statements -/

/-- A branch declares nothing. -/
theorem InStep.branch (ih : InStep n) {s : Stmt} (hp : p.pending = none)
    (h : s.Scoped w.knowledge p.around) (hafter : s.after p.around = p.around) :
    Simulates w p (Stays p SameCompletion) (Eval.stmt n s) (Located.Eval.stmt n s) :=
  (ih.stmt hp h).mono fun ⟨he, hc⟩ => ⟨he.trans (by rw [Spot.after, hafter]), hc⟩

theorem InStep.stmt_succ (ih : InStep n) {s : Stmt} (hp : p.pending = none)
    (h : s.Scoped w.knowledge p.around) :
    Simulates w p (Stays (p.after s) SameCompletion) (Eval.stmt (n + 1) s)
      (Located.Eval.stmt (n + 1) s) := by
  have hexpr : ∀ {e : Expr}, e.Scoped w.knowledge p.around none →
      Simulates w p (Stays p World.Same) (Eval.expr n e) (Located.Eval.expr n e) :=
    fun he => ih.expr (hp.symm ▸ he)
  have hdeclared : ∀ x, (p.declare x).define = { p with around := p.around.declare x } :=
    fun x => by simp [Spot.declare, Spot.define, hp]
  cases s with try simp only [Eval.stmt, Located.Eval.stmt]
  | expression value =>
    refine (hexpr (e := value) h).bind ?_
    rintro w₁ p₁ v v' - - ⟨rfl, -⟩
    exact .pure ⟨rfl, .normal⟩
  | print value =>
    refine (hexpr (e := value) h).bind ?_
    rintro w₁ p₁ v v' - - ⟨rfl, hv⟩
    rw [hv.text_eq]
    refine (simulates_printLine v'.text).bind ?_
    rintro w₂ p₂ - - - - ⟨rfl, rfl, -⟩
    exact .pure ⟨rfl, .normal⟩
  | varDecl name initializer =>
    obtain ⟨hname, hfresh, hvalue⟩ := h
    cases initializer with simp only [Eval.stmt, Located.Eval.stmt]
    | some value =>
      refine Simulates.declare hp hname hfresh fun w₁ l? hw₁ hl => ?_
      refine (ih.expr (e := value) (hw₁.knowledge ▸ hvalue value rfl)).bind ?_
      rintro w₂ p₂ v v' hw₂ - ⟨rfl, hv⟩
      refine (simulates_define (hl.mono hw₂.le) fun _ hw _ => hv.mono hw.le.likeness).bind ?_
      rintro w₃ p₃ - - - - ⟨rfl, -⟩
      exact .pure ⟨hdeclared _, .normal⟩
    | none =>
      refine Simulates.declare hp hname hfresh fun w₁ l? hw₁ hl => ?_
      refine (simulates_define hl fun _ _ _ => .nil).bind ?_
      rintro w₂ p₂ - - - - ⟨rfl, -⟩
      exact .pure ⟨hdeclared _, .normal⟩
  | block body => exact simulates_block ih.stmts hp h
  | ifThen condition thenBranch =>
    obtain ⟨hcondition, hthen, hafter⟩ := h
    refine (hexpr hcondition).bind ?_
    rintro w₁ p₁ v v' hw₁ - ⟨rfl, hv⟩
    rw [hv.truthy_eq]
    split
    · exact ih.branch hp (hw₁.knowledge ▸ hthen) hafter
    · exact .pure ⟨rfl, .normal⟩
  | ifElse condition thenBranch elseBranch =>
    obtain ⟨hcondition, ⟨hthen, hafter⟩, helse, hafter'⟩ := h
    refine (hexpr hcondition).bind ?_
    rintro w₁ p₁ v v' hw₁ - ⟨rfl, hv⟩
    rw [hv.truthy_eq]
    split
    · exact ih.branch hp (hw₁.knowledge ▸ hthen) hafter
    · exact ih.branch hp (hw₁.knowledge ▸ helse) hafter'
  | whileDo condition body => exact ih.loop hp h.1 h.2.1 h.2.2
  | funDecl decl =>
    obtain ⟨hname, hfresh, hdecl⟩ := h
    refine Simulates.declare hp hname hfresh fun w₁ l? hw₁ hl => ?_
    refine (simulates_known hl).bind ?_
    rintro w₂ p₂ scope places - - ⟨rfl, rfl, hholds⟩
    refine (simulates_function ⟨decl, scope, false⟩ ⟨decl, places, false⟩).bind ?_
    rintro w₃ p₃ v v' - - ⟨rfl, rfl, id, rfl, rfl⟩
    refine (simulates_define hl fun w' hw hb => .function id ?_).bind ?_
    · exact ⟨rfl, rfl, _, hholds w' hw hb, (hw₁.trans hw).knowledge.symm ▸ hdecl,
        fun hfalse => absurd hfalse Bool.false_ne_true⟩
    · rintro w₄ p₄ - - - - ⟨rfl, -⟩
      exact .pure ⟨hdeclared _, .normal⟩
  | ret keyword value =>
    cases value with simp only [Eval.stmt, Located.Eval.stmt]
    | some value =>
      refine (hexpr (h value rfl)).bind ?_
      rintro w₁ p₁ v v' - - ⟨rfl, hv⟩
      exact .pure ⟨rfl, .returned hv⟩
    | none => exact .pure ⟨rfl, .returned .nil⟩
  | classDecl name superclass methods =>
    refine (simulates_classDecl h hp).bind ?_
    rintro w₁ p₁ - - - - ⟨rfl, -⟩
    exact .pure ⟨hdeclared _, .normal⟩

theorem InStep.stmts_succ (ih : InStep n) :
    RunAlike (Eval.stmts (n + 1)) (Located.Eval.stmts (n + 1)) := by
  intro w p body hp h
  cases body with simp only [Eval.stmts, Located.Eval.stmts]
  | nil => exact .pure .normal
  | cons s rest =>
    refine (ih.stmt hp h.1).bind ?_
    rintro w₁ p₁ completion completion' hw₁ - ⟨rfl, hcompletion⟩
    cases hcompletion with
    | normal => exact ih.stmts hp (hw₁.knowledge ▸ h.2)
    | returned hv => exact .pure (.returned hv)

theorem InStep.loop_succ (ih : InStep n) {condition : Expr} {body : Stmt} (hp : p.pending = none)
    (hcondition : condition.Scoped w.knowledge p.around none)
    (hbody : body.Scoped w.knowledge p.around) (hafter : body.after p.around = p.around) :
    Simulates w p (Stays p SameCompletion) (Eval.loop (n + 1) condition body)
      (Located.Eval.loop (n + 1) condition body) := by
  rw [Eval.loop_succ]
  simp only [Located.Eval.loop]
  refine (ih.expr (hp.symm ▸ hcondition)).bind ?_
  rintro w₁ p₁ v v' hw₁ - ⟨rfl, hv⟩
  rw [hv.truthy_eq]
  split
  · refine (ih.branch hp (hw₁.knowledge ▸ hbody) hafter).bind ?_
    rintro w₂ p₂ completion completion' hw₂ - ⟨rfl, hcompletion⟩
    cases hcompletion with
    | normal =>
      have hk := (hw₁.trans hw₂).knowledge
      exact ih.loop hp (hk ▸ hcondition) (hk ▸ hbody) hafter
    | returned hv => exact .pure ⟨rfl, .returned hv⟩
  · exact .pure ⟨rfl, .normal⟩

theorem inStep : ∀ n, InStep n
  | 0 => inStep_zero
  | n + 1 =>
    have ih := inStep n
    ⟨ih.expr_succ, ih.exprs_succ, ih.stmt_succ, ih.stmts_succ, ih.loop_succ⟩

theorem Stmt.after_nil (s : Stmt) : s.after [] = [] := by
  cases s <;> rfl

/-- Outside of all scopes declarations are not tracked. -/
theorem Spot.after_of_outside (p : Spot) (hp : p.around = []) (s : Stmt) : p.after s = p := by
  rw [Spot.after, hp, s.after_nil, ← hp]

/-- A program, from outside of all scopes. -/
theorem simulates_program (budget : Nat) {p : Spot} (hp : p.around = [] ∧ p.pending = none) :
    {w : World} → (statements : List Stmt) → Stmt.AllScoped w.knowledge [] statements →
      Simulates w p (Stays p fun _ _ _ => True) (Eval.program budget statements)
        (Located.Eval.program budget statements)
  | w, [], _ => simulates_flush.mono fun ⟨_, hp, _⟩ => ⟨hp, trivial⟩
  | w, s :: rest, h => by
    refine ((inStep budget).stmt hp.2 (hp.1.symm ▸ h.1)).bind ?_
    rintro w₁ p₁ - - hw₁ - ⟨rfl, -⟩
    rw [p.after_of_outside hp.1 s]
    exact simulates_program budget hp rest (hw₁.knowledge ▸ s.after_nil ▸ h.2)

end LoxLang
