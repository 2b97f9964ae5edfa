import LoxLang.Proofs.Scopes.Steps

/-!
# Evaluation and its registries

Whatever is evaluated, and however it ends, all scopes and classes that have been made on the way
are in one registry. It is given by induction on the budget: each construct of the language is made
of parts that are recorded one after the other.

1. `Registry.Recording.apply`: calls of functions.
2. `Registry.recording`: expressions and statements, one case for each construct.
3. `Registry.leaves_program`: a program from its beginning to its end.
-/

namespace LoxLang

namespace Registry

open Step

variable {w : Registry} {n : Nat} {m : Machine}

/-- What a statement returns is good. -/
def Completes (w : Registry) : Completion → Prop
  | .normal => True
  | .returned value => w.Good value

/-- All that is evaluated within a budget is recorded. -/
structure Recording (n : Nat) : Prop where
  expr : ∀ {w : Registry} {m : Machine} (x : Option String) (e : Expr), w.Records m →
    w.Leaves (· = ⟨n, .expr x e, m⟩) Good (Eval.expr n e m)
  exprs : ∀ {w : Registry} {m : Machine} (x : Option String) (es : List Expr), w.Records m →
    w.Leaves (· = ⟨n, .exprs x es, m⟩) (fun w' vs => ∀ v ∈ vs, w'.Good v) (Eval.exprs n es m)
  stmt : ∀ {w : Registry} {m : Machine} (s : Stmt), w.Records m →
    w.Leaves (· = ⟨n, .stmt s, m⟩) Completes (Eval.stmt n s m)
  stmts : ∀ {w : Registry} {m : Machine} (body : List Stmt), w.Records m →
    w.Leaves (· = ⟨n, .stmts body, m⟩) Completes (Eval.stmts n body m)
  loop : ∀ {w : Registry} {m : Machine} (condition : Expr) (body : Stmt), w.Records m →
    w.Leaves (· = ⟨n, .loop condition body, m⟩) Completes (Eval.loop n condition body m)

/-- A task that has been given no values can begin on any machine that is recorded. -/
theorem Records.ready (hm : w.Records m) {task : Task} (hvalues : task.values = [])
    (hfunction : task.function? = none) : w.Ready ⟨n, task, m⟩ where
  machine := hm
  values v hv := by
    rw [hvalues] at hv
    exact nomatch hv
  function f hf := by
    rw [hfunction] at hf
    exact nomatch hf

/-! ## Variables and classes -/

theorem leaves_read (n : Nat) (hm : w.Records m) (o : Occurrence) :
    w.Leaves (· = ⟨n, .read o, m⟩) Good (Eval.lookUp o m) :=
  .visit (hm.ready rfl rfl) (leaves_lookUp hm o) rfl (by rintro _ ⟨⟩)

theorem leaves_write (n : Nat) (hm : w.Records m) {v : Value} (hv : w.Good v) (x : Option String)
    (o : Occurrence) :
    w.Leaves (· = ⟨n, .write x o v, m⟩) (fun _ _ => True) (Eval.assign o v m) :=
  .visit ⟨hm, List.forall_mem_singleton.2 hv, by rintro _ ⟨⟩⟩ (leaves_assign hm hv o) rfl
    (by rintro _ ⟨⟩)

theorem leaves_super (n : Nat) (hm : w.Records m) (keyword : Occurrence) (method : Token) :
    w.Leaves (· = ⟨n, .super keyword method, m⟩) Good (Eval.superMethod keyword method m) :=
  .visit (hm.ready rfl rfl) (leaves_superMethod hm keyword method) rfl (by rintro _ ⟨⟩)

theorem leaves_superclass? (n : Nat) (hm : w.Records m) (superclass : Option Occurrence) :
    w.Leaves (fun v => ∃ o, superclass = some o ∧ v = ⟨n, .read o, m⟩)
      (fun w' parent => ∀ c ∈ parent, w'.Good (.classValue c)) (Eval.superclass? superclass m) := by
  cases superclass with
  | none =>
    refine Leaves.starts (.pure hm nofun) ?_
    rintro v ⟨o, ho, -⟩
    exact nomatch ho
  | some o =>
    refine Leaves.starts (.seq (leaves_read n hm o) ?_) ?_
    · intro value k w₁ _ _ hk hvalue
      cases value with
      | classValue c => exact .pure hk fun d hd => Option.some.inj hd ▸ hvalue
      | _ => exact .fail hk _ _
    · rintro v ⟨o, ho, rfl⟩
      cases ho
      rfl

theorem leaves_classDecl (n : Nat) (hm : w.Records m) {name : Token} {parent : Option Class}
    (hparent : ∀ c ∈ parent, w.Good (.classValue c)) (methods : List FunctionDecl) :
    w.Leaves (· = ⟨n, .makeClass name parent methods, m⟩) (fun _ _ => True)
      (Eval.makeClass name parent methods m) := by
  refine .visit ⟨hm, ?_, by rintro _ ⟨⟩⟩ (leaves_makeClass hm name hparent methods) rfl
    (by rintro _ ⟨⟩)
  intro v hv
  obtain ⟨c, hc, rfl⟩ := List.mem_map.1 hv
  exact hparent c (Option.mem_toList.1 hc)

/-! ## Calls -/

/-- The body of a function is run in a scope inside the one that the function keeps. -/
theorem Recording.apply (ih : Recording n) {closure : Closure} {arguments : List Value}
    (h : w.Ready ⟨n, .apply closure arguments, m⟩) :
    w.Leaves (· = ⟨n, .apply closure arguments, m⟩) Good
      (Eval.apply (Eval.stmts n) closure arguments m) := by
  have hscope : closure.scope ∈ w.scopes := h.function closure rfl
  have hcontents {x : String} {v : Value}
      (hv : Bindings.get? (closure.contents arguments) x = some v) : w.Good v :=
    h.values v (Closure.mem_of_get?_contents hv).2
  refine .visit h (.bind
    (N := fun scope k v => v = ⟨n, .stmts closure.decl.body, { k with scope := scope }⟩)
    (leaves_openScope h.machine hscope hcontents) ?_) rfl ?_
  · intro scope k w₁ _ _ hk hscope
    have hbody := Leaves.within hk.scope (ih.stmts closure.decl.body (hk.enter hscope))
    refine hbody.seq ?_
    intro completion k' w₂ _ _ hk' hcompletion
    split
    · refine .done hk' ?_
      change w₂.Good ((k'.store.getLocal? closure.scope "this").getD .nil)
      cases hthis : k'.store.getLocal? closure.scope "this" with
      | none => exact .nil
      | some v => exact hk'.values (.inl ⟨_, _, hthis⟩)
    · cases completion with
      | normal => exact .pure hk' .nil
      | returned value => exact .pure hk' hcompletion
  · intro v hs
    cases hs with
    | apply hopen => exact .inr ⟨_, _, hopen, rfl⟩

/-- An initializer is bound to the new object in a scope of its own. -/
theorem Recording.construct (ih : Recording n) {c : Class} {arguments : List Value}
    (h : w.Ready ⟨n, .construct c arguments, m⟩) :
    w.Leaves (· = ⟨n, .construct c arguments, m⟩) Good
      (Eval.construct (Eval.stmts n) c arguments m) := by
  obtain ⟨hclass, harguments⟩ := List.forall_mem_cons.1 h.values
  unfold Eval.construct
  refine .visit h (.bind (N := fun object k v => ∃ initializer closure k',
      c.initializer? = some initializer ∧ Eval.bindThis initializer object k = .done closure k' ∧
        v = ⟨n, .apply closure arguments, k'⟩)
    (leaves_newObject h.machine hclass) ?_) rfl ?_
  · intro object k w₁ _ hw hk hobject
    cases hinitializer : c.initializer? with
    | none =>
      refine Leaves.starts (.pure hk hobject) ?_
      rintro v ⟨initializer, -, -, heq, -⟩
      exact nomatch heq
    | some initializer =>
      have hscope := (hclass.mono hw).method hinitializer
      refine Leaves.starts (.bind (N := fun closure k' v => v = ⟨n, .apply closure arguments, k'⟩)
        (leaves_bindThis hk hscope hobject) ?_) ?_
      · intro closure k' w₂ _ hw' hk' hclosure
        have hready : w₂.Ready ⟨n, .apply closure arguments, k'⟩ :=
          ⟨hk', fun v hv => (harguments v hv).mono (hw.trans hw'),
            fun f hf => Option.some.inj hf ▸ hclosure⟩
        refine (ih.apply hready).seq ?_
        intro _ k'' w₃ _ hw'' hk'' _
        exact .pure hk'' ((hobject.mono hw').mono hw'')
      · rintro v ⟨_, closure, k', heq, hbind, rfl⟩
        cases heq
        exact .inr ⟨closure, k', hbind, rfl⟩
  · intro v hs
    cases hs with
    | construct hnew hinitializer hbind =>
      exact .inr ⟨_, _, hnew, _, _, _, hinitializer, hbind, rfl⟩

/-- A call comes to what its body comes to, unless it is refused. -/
theorem leaves_call {S : Visit → Prop} {run : List Stmt → Eval Completion} {callee : Value}
    {line : Nat} {arguments : List Value} (hm : w.Records m)
    (hbody : w.Leaves S Good
      (Eval.body run line arguments callee { m with depth := m.depth + 1 })) :
    w.Leaves (fun v => Eval.arity? callee m = .done (some arguments.length) m ∧
        m.depth < Machine.maxDepth ∧ S v) Good (Eval.call run callee line arguments m) := by
  obtain ⟨found, harity⟩ := Eval.arity?_done callee m
  cases found with
  | none =>
    unfold Eval.call
    rw [Step.bind_of_done harity]
    refine Leaves.starts (.fail hm line _) ?_
    rintro v ⟨harity', -⟩
    exact nomatch harity.symm.trans harity'
  | some arity =>
    rw [Eval.call_of_arity harity]
    split
    · next hlength =>
      refine Leaves.starts (.failed hm _) ?_
      rintro v ⟨harity', -⟩
      cases harity.symm.trans harity'
      exact absurd rfl hlength
    · split
      · next hdepth => exact Leaves.starts (.failed hm _) fun v hv => absurd hv.2.1 hdepth.not_gt
      · exact Leaves.starts (.counted hbody) fun v hv => hv.2.2

theorem Recording.call (ih : Recording n) {callee : Value} {line : Nat} {arguments : List Value}
    (h : w.Ready ⟨n, .call callee line arguments, m⟩) :
    w.Leaves (· = ⟨n, .call callee line arguments, m⟩) Good
      (Eval.call (Eval.stmts n) callee line arguments m) := by
  obtain ⟨hcallee, harguments⟩ := List.forall_mem_cons.1 h.values
  have hm : w.Records { m with depth := m.depth + 1 } := { h.machine with }
  cases callee with
  | native index =>
    exact .visit h (leaves_call h.machine (leaves_native hm index line harguments)) rfl
      (by rintro _ ⟨⟩)
  | function id closure =>
    have hready : w.Ready ⟨n, .apply closure arguments, { m with depth := m.depth + 1 }⟩ :=
      ⟨hm, harguments, fun f hf => Option.some.inj hf ▸ hcallee.scopes _ (.head _)⟩
    refine .visit h (leaves_call h.machine (ih.apply hready)) rfl ?_
    intro v hs
    cases hs with
    | callFunction hlength hdepth => exact ⟨by rw [hlength]; rfl, hdepth, rfl⟩
  | classValue c =>
    have hready : w.Ready ⟨n, .construct c arguments, { m with depth := m.depth + 1 }⟩ :=
      ⟨hm, h.values, by rintro _ ⟨⟩⟩
    refine .visit h (leaves_call h.machine (ih.construct hready)) rfl ?_
    intro v hs
    cases hs with
    | callClass hlength hdepth => exact ⟨by rw [hlength]; rfl, hdepth, rfl⟩
  | _ => exact .visit h (leaves_call h.machine (.fail hm line _)) rfl (by rintro _ ⟨⟩)

/-! ## Expressions -/

theorem Recording.expr_succ (ih : Recording n) (x : Option String) (e : Expr)
    (hm : w.Records m) :
    w.Leaves (· = ⟨n + 1, .expr x e, m⟩) Good (Eval.expr (n + 1) e m) := by
  have hready : w.Ready ⟨n + 1, .expr x e, m⟩ := hm.ready rfl rfl
  cases e with simp only [Eval.expr]
  | literal value => exact .visit hready (.pure hm (.ofLiteral value)) rfl (by rintro _ ⟨⟩)
  | grouping inner =>
    refine .visit hready (ih.expr x inner hm) rfl ?_
    intro v hs
    cases hs with
    | grouping => rfl
  | unary operator operand =>
    refine .visit hready (.seq (ih.expr x operand hm) ?_) rfl ?_
    · intro v k w₁ _ _ hk _
      exact .lift hk _ fun u hu => .ofUnary hu
    · intro v hs
      cases hs with
      | unary => rfl
  | binary left operator right =>
    refine .visit hready (.bind (N := fun _ k => (· = ⟨n, .expr x right, k⟩))
      (ih.expr x left hm) ?_) rfl ?_
    · intro v k w₁ _ _ hk _
      refine (ih.expr x right hk).seq ?_
      intro v' k' w₂ _ _ hk' _
      exact .lift hk' _ fun u hu => .ofBinary hu
    · intro v hs
      cases hs with
      | binaryLeft => exact .inl rfl
      | binaryRight hrun => exact .inr ⟨_, _, hrun, rfl⟩
  | logical left operator right =>
    refine .visit hready (.bind (N := fun v k t =>
      Operator.decides operator.kind v = false ∧ t = ⟨n, .expr x right, k⟩)
      (ih.expr x left hm) ?_) rfl ?_
    · intro v k w₁ _ _ hk hv
      split
      · next hdecides =>
        exact Leaves.starts (.pure hk hv) fun t ht =>
          Bool.noConfusion (hdecides.symm.trans ht.1)
      · exact (ih.expr x right hk).starts fun t ht => ht.2
    · intro v hs
      cases hs with
      | logicalLeft => exact .inl rfl
      | logicalRight hrun hdecides => exact .inr ⟨_, _, hrun, hdecides, rfl⟩
  | var name =>
    refine .visit hready (leaves_read n hm name) rfl ?_
    intro v hs
    cases hs with
    | var => rfl
  | assign target value =>
    refine .visit hready (.bind (N := fun v k => (· = ⟨n, .write x target v, k⟩))
      (ih.expr x value hm) ?_) rfl ?_
    · intro v k w₁ _ _ hk hv
      refine (leaves_write n hk hv x target).seq ?_
      intro _ k' w₂ _ hw hk' _
      exact .pure hk' (hv.mono hw)
    · intro v hs
      cases hs with
      | assignValue => exact .inl rfl
      | assignTarget hrun => exact .inr ⟨_, _, hrun, rfl⟩
  | call callee close arguments =>
    refine .visit hready (.bind (N := fun v k t => t = ⟨n, .exprs x arguments, k⟩ ∨
      ∃ vs k', Eval.exprs n arguments k = .done vs k' ∧ t = ⟨n, .call v close.line vs, k'⟩)
      (ih.expr x callee hm) ?_) rfl ?_
    · intro v k w₁ _ _ hk hv
      refine (ih.exprs x arguments hk).bind ?_
      intro vs k' w₂ _ hw hk' hvs
      have hvalues := List.forall_mem_cons.2 ⟨hv.mono hw, hvs⟩
      exact ih.call ⟨hk', hvalues, by rintro _ ⟨⟩⟩
    · intro v hs
      cases hs with
      | callee => exact .inl rfl
      | arguments hrun => exact .inr ⟨_, _, hrun, .inl rfl⟩
      | call hrun hruns => exact .inr ⟨_, _, hrun, .inr ⟨_, _, hruns, rfl⟩⟩
  | get object name =>
    refine .visit hready (.seq (ih.expr x object hm) ?_) rfl ?_
    · intro v k w₁ _ _ hk hv
      cases v with
      | object address c => exact leaves_property hk hv name
      | _ => exact .fail hk _ _
    · intro v hs
      cases hs with
      | getObject => rfl
  | set object name value =>
    refine .visit hready (.bind (N := fun v k t =>
      (∃ address c, v = .object address c) ∧ t = ⟨n, .expr x value, k⟩)
      (ih.expr x object hm) ?_) rfl ?_
    · intro v k w₁ _ _ hk _
      cases v with
      | object address c =>
        refine ((ih.expr x value hk).seq ?_).starts fun t ht => ht.2
        intro u k' w₂ _ _ hk' hu
        refine (leaves_setField hk' hu address name.lexeme).seq ?_
        intro _ k'' w₃ _ hw hk'' _
        exact .pure hk'' (hu.mono hw)
      | _ =>
        refine Leaves.starts (.fail hk _ _) ?_
        rintro t ⟨⟨address, c, ⟨⟩⟩, -⟩
    · intro v hs
      cases hs with
      | setObject => exact .inl rfl
      | setValue hrun => exact .inr ⟨_, _, hrun, ⟨_, _, rfl⟩, rfl⟩
  | this keyword =>
    refine .visit hready (leaves_read n hm keyword) rfl ?_
    intro v hs
    cases hs with
    | this => rfl
  | super keyword method =>
    refine .visit hready (leaves_super n hm keyword method) rfl ?_
    intro v hs
    cases hs with
    | super => rfl

theorem Recording.exprs_succ (ih : Recording n) (x : Option String) (es : List Expr)
    (hm : w.Records m) :
    w.Leaves (· = ⟨n + 1, .exprs x es, m⟩) (fun w' vs => ∀ v ∈ vs, w'.Good v)
      (Eval.exprs (n + 1) es m) := by
  have hready : w.Ready ⟨n + 1, .exprs x es, m⟩ := hm.ready rfl rfl
  cases es with simp only [Eval.exprs]
  | nil => exact .visit hready (.pure hm (by rintro _ ⟨⟩)) rfl (by rintro _ ⟨⟩)
  | cons e rest =>
    refine .visit hready (.bind (N := fun _ k => (· = ⟨n, .exprs x rest, k⟩))
      (ih.expr x e hm) ?_) rfl ?_
    · intro v k w₁ _ _ hk hv
      refine (ih.exprs x rest hk).seq ?_
      intro vs k' w₂ _ hw hk' hvs
      exact .pure hk' (List.forall_mem_cons.2 ⟨hv.mono hw, hvs⟩)
    · intro v hs
      cases hs with
      | first => exact .inl rfl
      | others hrun => exact .inr ⟨_, _, hrun, rfl⟩

/-! ## Statements -/

theorem Recording.stmt_succ (ih : Recording n) (s : Stmt) (hm : w.Records m) :
    w.Leaves (· = ⟨n + 1, .stmt s, m⟩) Completes (Eval.stmt (n + 1) s m) := by
  have hready : w.Ready ⟨n + 1, .stmt s, m⟩ := hm.ready rfl rfl
  cases s with try simp only [Eval.stmt]
  | expression value =>
    refine .visit hready (.seq (ih.expr none value hm) ?_) rfl ?_
    · intro _ k w₁ _ _ hk _
      exact .pure hk trivial
    · intro v hs
      cases hs with
      | expression => rfl
  | print value =>
    refine .visit hready (.seq (ih.expr none value hm) ?_) rfl ?_
    · intro v k w₁ _ _ hk _
      refine (leaves_printLine hk v.text).seq ?_
      intro _ k' w₂ _ _ hk' _
      exact .pure hk' trivial
    · intro v hs
      cases hs with
      | print => rfl
  | varDecl name initializer =>
    cases initializer with simp only [Eval.stmt]
    | none =>
      refine .visit hready ((leaves_define hm .nil name.lexeme).seq ?_) rfl (by rintro _ ⟨⟩)
      intro _ k w₁ _ _ hk _
      exact .pure hk trivial
    | some value =>
      refine .visit hready (.seq (ih.expr (some name.lexeme) value hm) ?_) rfl ?_
      · intro v k w₁ _ _ hk hv
        refine (leaves_define hk hv name.lexeme).seq ?_
        intro _ k' w₂ _ _ hk' _
        exact .pure hk' trivial
      · intro v hs
        cases hs with
        | initializer => rfl
  | block body =>
    refine .visit hready (.look (.bind
      (N := fun scope k v => v = ⟨n, .stmts body, { k with scope := scope }⟩)
      (leaves_openScope hm hm.scope (by rintro _ _ ⟨⟩)) ?_)) rfl ?_
    · intro scope k w₁ _ _ hk hscope
      exact .within hk.scope (ih.stmts body (hk.enter hscope))
    · intro v hs
      cases hs with
      | block hopen => exact .inr ⟨_, _, hopen, rfl⟩
  | ifThen condition thenBranch =>
    refine .visit hready (.bind (N := fun v k t =>
      v.truthy = true ∧ t = ⟨n, .stmt thenBranch, k⟩) (ih.expr none condition hm) ?_) rfl ?_
    · intro v k w₁ _ _ hk _
      split
      · exact (ih.stmt thenBranch hk).starts fun t ht => ht.2
      · next htruthy => exact Leaves.starts (.pure hk trivial) fun t ht => absurd ht.1 htruthy
    · intro v hs
      cases hs with
      | ifThenCondition => exact .inl rfl
      | ifThenBranch hrun htruthy => exact .inr ⟨_, _, hrun, htruthy, rfl⟩
  | ifElse condition thenBranch elseBranch =>
    refine .visit hready (.bind (N := fun v k t =>
      t = ⟨n, .stmt (if v.truthy then thenBranch else elseBranch), k⟩)
      (ih.expr none condition hm) ?_) rfl ?_
    · intro v k w₁ _ _ hk _
      split
      · exact ih.stmt thenBranch hk
      · exact ih.stmt elseBranch hk
    · intro v hs
      cases hs with
      | ifElseCondition => exact .inl rfl
      | ifElseThen hrun htruthy => exact .inr ⟨_, _, hrun, by rw [htruthy]; rfl⟩
      | ifElseElse hrun htruthy => exact .inr ⟨_, _, hrun, by rw [htruthy]; rfl⟩
  | whileDo condition body =>
    refine .visit hready (ih.loop condition body hm) rfl ?_
    intro v hs
    cases hs with
    | whileDo => rfl
  | funDecl decl =>
    refine .visit hready (.look ((leaves_function hm hm.scope).seq ?_)) rfl (by rintro _ ⟨⟩)
    intro v k w₁ _ _ hk hv
    refine (leaves_define hk hv decl.name.lexeme).seq ?_
    intro _ k' w₂ _ _ hk' _
    exact .pure hk' trivial
  | ret keyword value =>
    cases value with simp only [Eval.stmt]
    | none => exact .visit hready (.pure hm .nil) rfl (by rintro _ ⟨⟩)
    | some value =>
      refine .visit hready (.seq (ih.expr none value hm) ?_) rfl ?_
      · intro v k w₁ _ _ hk hv
        exact .pure hk hv
      · intro v hs
        cases hs with
        | ret => rfl
  | classDecl name superclass methods =>
    refine .visit hready (.seq (Q := fun _ _ => True) (.bind
      (N := fun parent k => (· = ⟨n, .makeClass name parent methods, k⟩))
      (leaves_superclass? n hm superclass) ?_) ?_) rfl ?_
    · intro parent k w₁ _ _ hk hparent
      exact leaves_classDecl n hk hparent methods
    · intro _ k w₁ _ _ hk _
      exact .pure hk trivial
    · intro v hs
      cases hs with
      | superclass => exact .inl ⟨_, rfl, rfl⟩
      | classDecl hrun => exact .inr ⟨_, _, hrun, rfl⟩

theorem Recording.stmts_succ (ih : Recording n) (body : List Stmt) (hm : w.Records m) :
    w.Leaves (· = ⟨n + 1, .stmts body, m⟩) Completes (Eval.stmts (n + 1) body m) := by
  have hready : w.Ready ⟨n + 1, .stmts body, m⟩ := hm.ready rfl rfl
  cases body with simp only [Eval.stmts]
  | nil => exact .visit hready (.pure hm trivial) rfl (by rintro _ ⟨⟩)
  | cons s rest =>
    refine .visit hready (.bind (N := fun completion k t =>
      completion = .normal ∧ t = ⟨n, .stmts rest, k⟩) (ih.stmt s hm) ?_) rfl ?_
    · intro completion k w₁ _ _ hk hcompletion
      cases completion with
      | normal => exact (ih.stmts rest hk).starts fun t ht => ht.2
      | returned value =>
        exact Leaves.starts (.pure hk hcompletion) fun t ht => Completion.noConfusion ht.1
    · intro v hs
      cases hs with
      | head => exact .inl rfl
      | tail hrun => exact .inr ⟨_, _, hrun, rfl, rfl⟩

theorem Recording.loop_succ (ih : Recording n) (condition : Expr) (body : Stmt)
    (hm : w.Records m) :
    w.Leaves (· = ⟨n + 1, .loop condition body, m⟩) Completes
      (Eval.loop (n + 1) condition body m) := by
  have hready : w.Ready ⟨n + 1, .loop condition body, m⟩ := hm.ready rfl rfl
  have hend := congrArg (Ending.machine <| · m) (Eval.loop_succ n condition body).symm
  rw [Eval.loop_succ]
  refine .visit hready (.bind (N := fun v k t => v.truthy = true ∧ (t = ⟨n, .stmt body, k⟩ ∨
      ∃ k', Eval.stmt n body k = .done .normal k' ∧ t = ⟨n, .loop condition body, k'⟩))
    (ih.expr none condition hm) ?_) hend ?_
  · intro v k w₁ _ _ hk _
    split
    · refine ((ih.stmt body hk).bind (N := fun completion k' t =>
        completion = .normal ∧ t = ⟨n, .loop condition body, k'⟩) ?_).starts ?_
      · intro completion k' w₂ _ _ hk' hcompletion
        cases completion with
        | normal => exact (ih.loop condition body hk').starts fun t ht => ht.2
        | returned value =>
          exact Leaves.starts (.pure hk' hcompletion) fun t ht => Completion.noConfusion ht.1
      · rintro t ⟨-, rfl | ⟨k', hrun, rfl⟩⟩
        · exact .inl rfl
        · exact .inr ⟨_, _, hrun, rfl, rfl⟩
    · next htruthy => exact Leaves.starts (.pure hk trivial) fun t ht => absurd ht.1 htruthy
  · intro v hs
    cases hs with
    | loopCondition => exact .inl rfl
    | loopBody hrun htruthy => exact .inr ⟨_, _, hrun, htruthy, .inl rfl⟩
    | loopAgain hrun htruthy hrun' => exact .inr ⟨_, _, hrun, htruthy, .inr ⟨_, hrun', rfl⟩⟩

/-! ## All of evaluation -/

theorem recording : ∀ n, Recording n
  | 0 =>
    { expr := fun _ _ hm => .visit (hm.ready rfl rfl) (.exhausted hm) rfl (by rintro _ ⟨⟩)
      exprs := fun _ _ hm => .visit (hm.ready rfl rfl) (.exhausted hm) rfl (by rintro _ ⟨⟩)
      stmt := fun _ hm => .visit (hm.ready rfl rfl) (.exhausted hm) rfl (by rintro _ ⟨⟩)
      stmts := fun _ hm => .visit (hm.ready rfl rfl) (.exhausted hm) rfl (by rintro _ ⟨⟩)
      loop := fun _ _ hm => .visit (hm.ready rfl rfl) (.exhausted hm) rfl (by rintro _ ⟨⟩) }
  | n + 1 =>
    have ih := recording n
    ⟨ih.expr_succ, ih.exprs_succ, ih.stmt_succ, ih.stmts_succ, ih.loop_succ⟩

/-- A program runs its statements one after another, whatever they return. -/
theorem leaves_program (n : Nat) (statements : List Stmt) (hm : w.Records m) :
    w.Leaves (· = ⟨n, .program statements, m⟩) (fun _ _ => True)
      (Eval.program n statements m) := by
  have ih := recording n
  induction statements generalizing w m with
  | nil => exact .visit (hm.ready rfl rfl) (leaves_flush hm) rfl (by rintro _ ⟨⟩)
  | cons s rest hrest =>
    refine .visit (hm.ready rfl rfl) (.bind (N := fun _ k => (· = ⟨n, .program rest, k⟩))
      (ih.stmt s hm) ?_) rfl ?_
    · intro _ k w₁ _ _ hk _
      exact hrest hk
    · intro v hs
      cases hs with
      | programHead => exact .inl rfl
      | programTail hrun => exact .inr ⟨_, _, hrun, rfl⟩

end Registry

end LoxLang
