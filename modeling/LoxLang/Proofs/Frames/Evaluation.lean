import LoxLang.Proofs.Frames.Ready

/-!
# Evaluation and its chronicle

Whatever a task comes to that is in the frames around it, the machine stays as a chronicle says; and
an initializer gives back the object that its scope binds to `this`, however its body ends.

1. `Chronicle.Keeping.apply`: calls of functions.
2. `Chronicle.keeping`: expressions and statements, one case for each construct.
3. `Chronicle.Ready.visits`, `Chronicle.Ready.after`: all that a visit comes to, and its end.
-/

namespace LoxLang

namespace Chronicle

open Step

variable {w w' : Chronicle} {around : Surroundings} {n : Nat} {m : Machine}

/-- What a task starts leaves a machine as a chronicle says. -/
theorem Ready.leaves {α : Type} {R : Chronicle → α → Prop} {ending : Outcome α} {u v : Visit}
    (h : w.Ready around u) (hs : Starts u v) (ih : Keeping v.budget)
    (hv : ∀ {w' : Chronicle} {around' : Surroundings}, w'.Ready around' v → w'.Leaves R ending) :
    w.Leaves R ending := by
  obtain ⟨w', around', hw, hready⟩ := h.starts hs ih
  exact .before hw (hv hready)

/-! ## Calls -/

/-- What the scope of an initializer itself binds `this` to is an object, and stays so. -/
theorem Function.this {closure : Closure} (hf : w.Function closure)
    (hinit : closure.isInitializer = true) (hm : w.Holds m) (hw : w.Le w') {k : Machine}
    (hk : w'.Holds k) :
    ∃ address c, m.store.getLocal? closure.scope "this" = some (.object address c) ∧
      k.store.getLocal? closure.scope "this" = some (.object address c) := by
  cases hf with
  | plain hplain _ _ _ => exact nomatch hplain.symm.trans hinit
  | @bound f t address c _ ht => exact ⟨address, c, hm.receivers ht, hk.receivers (ht.mono hw)⟩

/-- An initializer gives back its object; all that a function gives back is known. -/
theorem Keeping.apply (ih : Keeping n) {closure : Closure} {arguments : List Value}
    (h : w.Ready around ⟨n, .apply closure arguments, m⟩) :
    w.Leaves (fun w' v => w'.Good v ∧ (closure.isInitializer = true →
        some v = m.store.getLocal? closure.scope "this"))
      (Eval.apply (Eval.stmts n) closure arguments m) := by
  have hopen : Eval.openScope closure.scope (closure.contents arguments) m = .done _ _ := rfl
  unfold Eval.apply
  rw [Step.bind_of_done hopen]
  refine (Leaves.within (h.leaves (.apply hopen) ih ih.stmts)).bind ?_
  intro completion k w' _ hw hk hcompletion
  by_cases hinit : closure.isInitializer = true
  · obtain ⟨address, c, hthis, hthis'⟩ := h.fits.1.this hinit h.machine hw hk
    rw [if_pos hinit]
    refine Leaves.done hk ?_
    simp only [hthis, hthis', Option.getD_some]
    exact ⟨hk.values hthis', fun _ => trivial⟩
  · rw [if_neg hinit]
    cases completion with
    | normal => exact .pure hk ⟨trivial, fun hi => absurd hi hinit⟩
    | returned value => exact .pure hk ⟨hcompletion, fun hi => absurd hi hinit⟩

/-- A class gives back the object that it makes. -/
theorem Keeping.construct (ih : Keeping n) {c : Class} {arguments : List Value}
    (h : w.Ready around ⟨n, .construct c arguments, m⟩) :
    w.Leaves Good (Eval.construct (Eval.stmts n) c arguments m) := by
  unfold Eval.construct
  cases hinitializer : c.initializer? with
  | none =>
    refine (leaves_newObject h.machine h.fits.1).bind ?_
    intro object k w' _ _ hk hobject
    exact .pure hk hobject.2
  | some initializer =>
    let m₁ : Machine := { m with objects := m.objects.push [] }
    have hnew : Eval.newObject c m = .done (.object m.objects.size c) m₁ := rfl
    have hbind : Eval.bindThis initializer (.object m.objects.size c) m₁ = .done _ _ := rfl
    obtain ⟨w', hw, hobject, hready⟩ := h.initializer hnew hinitializer hbind
    rw [Step.bind_of_done hnew]
    change w.Leaves Good ((Eval.bindThis initializer (.object m.objects.size c) >>= _) m₁)
    rw [Step.bind_of_done hbind]
    refine .before hw ((ih.apply hready).bind ?_)
    intro _ k w'' _ hw' hk _
    exact .pure hk (hobject.mono hw')

/-- One more call in progress. -/
theorem Keeping.call (ih : Keeping n) {callee : Value} {line : Nat} {arguments : List Value}
    (h : w.Ready around ⟨n, .call callee line arguments, m⟩) :
    w.Leaves Good (Eval.call (Eval.stmts n) callee line arguments m) := by
  obtain ⟨arity?, harity⟩ := Eval.arity?_done callee m
  cases arity? with
  | none =>
    unfold Eval.call
    rw [Step.bind_of_done harity]
    exact .fail h.machine line _
  | some arity =>
    rw [Eval.call_of_arity harity]
    split
    · exact .fail h.machine line _
    · next hlength =>
      obtain rfl : arguments.length = arity := not_not.1 hlength
      split
      · exact .fail h.machine line _
      · next hdepth =>
        have hdepth : m.depth < Machine.maxDepth := Nat.lt_of_not_le hdepth
        have hm : w.Holds { m with depth := m.depth + 1 } := { h.machine with }
        refine .counted ?_
        cases callee with
        | native index => exact leaves_native hm index line h.fits.2
        | function id closure =>
          injection harity with harity
          injection harity with harity
          have hresult := h.leaves (.callFunction harity.symm hdepth) ih ih.apply
          exact hresult.mono fun _ hv => hv.1
        | classValue c =>
          injection harity with harity
          injection harity with harity
          exact h.leaves (.callClass harity.symm hdepth) ih ih.construct
        | _ => exact .fail hm line _

/-! ## Classes -/

/-- The scope in which methods are declared; with a superclass it has a frame of its own. -/
theorem leaves_methodScope {parent : Option Class} (methods : List FunctionDecl) {u : Visit}
    {name : Token} (hm : w.Holds m) (hparent : ∀ c ∈ parent, w.Pedigree c)
    (hseats : w.Seats m.scope.chain around)
    (hu : w.past u) (htask : u.task = .makeClass name parent methods)
    (hsize : u.machine.store.frames.size = m.store.frames.size)
    (hchain : u.machine.scope.chain = m.scope.chain) :
    w.Leaves (fun w' scope =>
        (∀ decl ∈ methods, w'.Declares decl scope.chain (around.inherit parent)) ∧
          ∀ {c}, w.Inside m.scope.chain c → w'.Inside scope.chain c)
      (Eval.methodScope parent m) := by
  cases parent with
  | none => exact .done hm ⟨fun decl _ => .alone hseats, id⟩
  | some c =>
    have hopens : w.Opens m (.parent c methods) m.scope.chain [("super", .classValue c)] := by
      refine ⟨fun {x v} hv => ?_, nofun, ?_, ?_, ?_, nofun, ?_⟩
      · rw [Bindings.get?_cons] at hv
        split at hv
        · exact Option.some.inj hv ▸ hparent c rfl
        · exact nomatch hv
      · rintro _ _ ⟨rfl, rfl⟩
        rfl
      · intro v hv
        exact nomatch hv
      · exact fun _ => ⟨c, methods, rfl⟩
      · rintro _ _ ⟨rfl, rfl⟩
        exact ⟨u, name, hu, htask, hsize, hchain⟩
    have hw := w.le_push (.parent c methods) m.scope.chain
    have hmade := made_push hm (.parent c methods) m.scope.chain
    refine ⟨_, hw, hm.push hopens, fun decl hdecl => ?_, fun hinside => ?_⟩
    · exact .inheriting hmade hdecl (hseats.mono hw)
    · exact (hinside.mono hw).cons hmade nofun

/-- The methods of a new class are declared in the scope of the class. -/
theorem leaves_makeClass {name : Token} {parent : Option Class} {methods : List FunctionDecl}
    (h : w.Ready around ⟨n, .makeClass name parent methods, m⟩) :
    w.Leaves (fun _ _ => True) (Eval.makeClass name parent methods m) := by
  obtain ⟨hname, hparent, hscoped, hinside⟩ := h.fits
  have hdefined := h.machine.put (i := m.scope.frame) (v := .nil) trivial
    (.inr ⟨hname.ne_this, hname.ne_super⟩)
  have hsize : m.store.frames.size = (m.store.put m.scope.frame name.lexeme .nil).frames.size := by
    simp [Store.put]
  have hscope := leaves_methodScope methods hdefined hparent (h.seats.declare hname)
    (h.past _ .refl) rfl hsize rfl
  unfold Eval.makeClass
  rw [Step.bind_of_done (show Eval.define name.lexeme .nil m = .done () _ from rfl)]
  refine hscope.bind ?_
  rintro scope k w₁ - hw₁ hk ⟨hdeclares, hwithin⟩
  rw [Step.bind_of_done (show Eval.freshId k = .done k.nextId _ from rfl)]
  have hk : w₁.Holds { k with nextId := k.nextId + 1 } := { hk with }
  refine leaves_assignClass (v := .classValue _) hk ⟨fun body hbody => ?_, fun honest => ?_⟩ hname
  · rcases List.mem_cons.1 hbody with rfl | hbody
    · intro f hf
      obtain ⟨decl, hdecl, rfl⟩ := List.mem_map.1 hf
      refine ⟨rfl, _, hdeclares decl hdecl, ?_, hwithin (hinside decl hdecl)⟩
      exact (scoped_of_mem hscoped decl hdecl).extend hw₁.knowledge _
    · cases parent with
      | none => contradiction
      | some c => exact ((hparent c rfl).mono hw₁).methods body hbody
  · refine .intro (hw₁.past.1 (h.past _ .refl)) rfl rfl ?_ rfl fun c hc => ?_
    · rw [List.map_map]
      exact List.map_id methods
    · exact ((hparent c hc).mono hw₁).lineage honest

/-! ## Expressions -/

theorem good_ofLiteral (value : Literal) : w.Good (.ofLiteral value) := by
  cases value with
  | _ => trivial

theorem good_of_unary {operator : Kind} {v u : Value} (h : Operator.unary operator v = .ok u) :
    w.Good u := by
  unfold Operator.unary at h
  split at h <;> try split at h
  all_goals cases h <;> trivial

theorem good_of_binary {operator : Kind} {v v' u : Value}
    (h : Operator.binary operator v v' = .ok u) : w.Good u := by
  unfold Operator.binary Operator.add Operator.numeric at h
  split at h <;> try split at h
  all_goals try split at h
  all_goals cases h <;> trivial

theorem Keeping.expr_succ (ih : Keeping n) {x : Option String} {e : Expr}
    (h : w.Ready around ⟨n + 1, .expr x e, m⟩) : w.Leaves Good (Eval.expr (n + 1) e m) := by
  cases e with simp only [Eval.expr]
  | literal value => exact .pure h.machine (good_ofLiteral value)
  | grouping inner => exact h.leaves .grouping ih ih.expr
  | unary operator operand =>
    refine (h.leaves .unary ih ih.expr).bind ?_
    intro v k w₁ _ _ hk _
    exact .lift hk _ fun u hu => good_of_unary hu
  | binary left operator right =>
    refine (h.leaves .binaryLeft ih ih.expr).next ?_
    intro v k hrun _
    refine (h.leaves (.binaryRight hrun) ih ih.expr).bind ?_
    intro v' k' w₁ _ _ hk _
    exact .lift hk _ fun u hu => good_of_binary hu
  | logical left operator right =>
    refine (h.leaves .logicalLeft ih ih.expr).next ?_
    rintro v k hrun ⟨w₁, hw, hk, hv⟩
    split
    · exact .before hw (.pure hk hv)
    · next hdecides =>
      have hdecides := Bool.not_eq_true _ ▸ hdecides
      exact h.leaves (.logicalRight hrun hdecides) ih ih.expr
  | var name => exact leaves_lookUp h.machine name
  | assign target value =>
    refine (h.leaves .assignValue ih ih.expr).bind ?_
    intro v k w₁ hrun hw hk hv
    have hpast : w₁.past ⟨n, .write x target v, k⟩ :=
      hw.past.1 (h.past _ (.head (.assignTarget hrun) .refl))
    refine (leaves_assign hk hv (hk.written hpast rfl)).bind ?_
    intro _ k' w₂ _ hw' hk' _
    exact .pure hk' (hv.mono hw')
  | call callee close arguments =>
    refine (h.leaves .callee ih ih.expr).next ?_
    intro v k hrun _
    refine (h.leaves (.arguments hrun) ih ih.exprs).next ?_
    intro vs k' hruns _
    exact h.leaves (.call hrun hruns) ih ih.call
  | get object name =>
    refine (h.leaves .getObject ih ih.expr).bind ?_
    intro v k w₁ _ _ hk hv
    cases v with
    | object address c => exact leaves_property hk hv name
    | _ => exact .fail hk _ _
  | set object name value =>
    refine (h.leaves .setObject ih ih.expr).next ?_
    rintro v k hrun ⟨w₁, hw, hk, -⟩
    cases v with
    | object address c =>
      refine (h.leaves (.setValue hrun) ih ih.expr).bind ?_
      intro u k' w₂ _ _ hk' hu
      refine (leaves_setField hk' address name.lexeme hu).bind ?_
      intro _ k'' w₃ _ hw'' hk'' _
      exact .pure hk'' (hu.mono hw'')
    | _ => exact .before hw (.fail hk _ _)
  | this keyword => exact leaves_lookUp h.machine keyword
  | super keyword method => exact leaves_superMethod h.machine keyword method

theorem Keeping.exprs_succ (ih : Keeping n) {x : Option String} {es : List Expr}
    (h : w.Ready around ⟨n + 1, .exprs x es, m⟩) :
    w.Leaves (fun w' vs => ∀ v ∈ vs, w'.Good v) (Eval.exprs (n + 1) es m) := by
  cases es with simp only [Eval.exprs]
  | nil => exact .pure h.machine nofun
  | cons e rest =>
    obtain ⟨⟨pending, hscoped, hrest⟩, hinside⟩ := h.fits
    refine (ih.expr (h.first .first rfl ⟨⟨pending, hscoped⟩, hinside e (.head _)⟩)).bind ?_
    intro v k w₁ hrun hw hk hv
    have hothers : w.Fits m.scope.chain around (.exprs x rest) :=
      ⟨⟨pending, hrest⟩, fun e he => hinside e (.tail _ he)⟩
    have hscope := scope_of_done ((Eval.restoring n).expr e) hrun
    refine (ih.exprs (h.next (.others hrun) hw hk hscope (hothers.mono hw))).bind ?_
    intro vs k' w₂ _ hw' hk' hvs
    exact .pure hk' (List.forall_mem_cons.2 ⟨hv.mono hw', hvs⟩)

/-! ## Statements -/

theorem Keeping.stmt_succ (ih : Keeping n) {s : Stmt}
    (h : w.Ready around ⟨n + 1, .stmt s, m⟩) : w.Leaves Completes (Eval.stmt (n + 1) s m) := by
  obtain ⟨hscoped, hinside⟩ := h.fits
  cases s with try simp only [Eval.stmt]
  | expression value =>
    refine (h.leaves .expression ih ih.expr).bind ?_
    intro _ k w₁ _ _ hk _
    exact .pure hk trivial
  | print value =>
    refine (h.leaves .print ih ih.expr).bind ?_
    intro v k w₁ _ _ hk _
    refine (leaves_printLine hk v.text).bind ?_
    intro _ k' w₂ _ _ hk' _
    exact .pure hk' trivial
  | varDecl name initializer =>
    have hname : IsName name.lexeme := hscoped.1
    cases initializer with simp only [Eval.stmt]
    | none =>
      refine (leaves_define h.machine (v := .nil) trivial hname).bind ?_
      intro _ k w₁ _ _ hk _
      exact .pure hk trivial
    | some value =>
      refine (h.leaves .initializer ih ih.expr).bind ?_
      intro v k w₁ _ _ hk hv
      refine (leaves_define hk hv hname).bind ?_
      intro _ k' w₂ _ _ hk' _
      exact .pure hk' trivial
  | block body => exact .within (h.leaves (.block rfl) ih ih.stmts)
  | ifThen condition thenBranch =>
    refine (h.leaves .ifThenCondition ih ih.expr).next ?_
    rintro v k hrun ⟨w₁, hw, hk, -⟩
    split
    · next htruthy => exact h.leaves (.ifThenBranch hrun htruthy) ih ih.stmt
    · exact .before hw (.pure hk trivial)
  | ifElse condition thenBranch elseBranch =>
    refine (h.leaves .ifElseCondition ih ih.expr).next ?_
    intro v k hrun _
    split
    · next htruthy => exact h.leaves (.ifElseThen hrun htruthy) ih ih.stmt
    · next htruthy =>
      have htruthy := Bool.not_eq_true _ ▸ htruthy
      exact h.leaves (.ifElseElse hrun htruthy) ih ih.stmt
  | whileDo condition body => exact h.leaves .whileDo ih ih.loop
  | funDecl decl =>
    obtain ⟨hname, -, hdecl⟩ := hscoped
    have hfunction : w.Function ⟨decl, m.scope, false⟩ :=
      .plain rfl (h.seats.declare hname) hdecl (hinside.part (.head _))
    refine Leaves.look ((leaves_function h.machine hfunction).bind ?_)
    intro v k w₁ _ _ hk hv
    refine (leaves_define hk hv hname).bind ?_
    intro _ k' w₂ _ _ hk' _
    exact .pure hk' trivial
  | ret keyword value =>
    cases value with simp only [Eval.stmt]
    | none => exact .pure h.machine trivial
    | some value =>
      refine (h.leaves .ret ih ih.expr).bind ?_
      intro v k w₁ _ _ hk hv
      exact .pure hk hv
  | classDecl name superclass methods =>
    refine Leaves.bind (Q := fun _ _ => True) ?_ ?_
    · refine (leaves_superclass? h.machine superclass).next ?_
      intro parent k hrun _
      exact h.leaves (.classDecl hrun) ih leaves_makeClass
    · intro _ k w₁ _ _ hk _
      exact .pure hk trivial

theorem Keeping.stmts_succ (ih : Keeping n) {body : List Stmt}
    (h : w.Ready around ⟨n + 1, .stmts body, m⟩) :
    w.Leaves Completes (Eval.stmts (n + 1) body m) := by
  cases body with simp only [Eval.stmts]
  | nil => exact .pure h.machine trivial
  | cons s rest =>
    refine (h.leaves .head ih ih.stmt).next ?_
    rintro completion k hrun ⟨w₁, hw, hk, hcompletion⟩
    cases completion with
    | normal => exact h.leaves (.tail hrun) ih ih.stmts
    | returned value => exact .before hw (.pure hk hcompletion)

theorem Keeping.loop_succ (ih : Keeping n) {condition : Expr} {body : Stmt}
    (h : w.Ready around ⟨n + 1, .loop condition body, m⟩) :
    w.Leaves Completes (Eval.loop (n + 1) condition body m) := by
  rw [Eval.loop_succ]
  refine (h.leaves .loopCondition ih ih.expr).next ?_
  rintro v k hrun ⟨w₁, hw, hk, -⟩
  split
  · next htruthy =>
    refine (h.leaves (.loopBody hrun htruthy) ih ih.stmt).next ?_
    rintro completion k' hrun' ⟨w₂, hw', hk', hcompletion⟩
    cases completion with
    | normal => exact h.leaves (.loopAgain hrun htruthy hrun') ih ih.loop
    | returned value => exact .before hw' (.pure hk' hcompletion)
  · exact .before hw (.pure hk trivial)

/-! ## All of evaluation -/

theorem keeping : ∀ n, Keeping n
  | 0 => ⟨fun h => .exhausted h.machine, fun h => .exhausted h.machine,
      fun h => .exhausted h.machine, fun h => .exhausted h.machine, fun h => .exhausted h.machine⟩
  | n + 1 =>
    have ih := keeping n
    ⟨ih.expr_succ, ih.exprs_succ, ih.stmt_succ, ih.stmts_succ, ih.loop_succ⟩

theorem leaves_program {statements : List Stmt} {w : Chronicle} {around : Surroundings}
    {m : Machine} (h : w.Ready around ⟨n, .program statements, m⟩) :
    w.Leaves (fun _ _ => True) (Eval.program n statements m) := by
  have ih := keeping n
  induction statements generalizing w around m with
  | nil => exact leaves_flush h.machine
  | cons s rest hrest =>
    refine (h.leaves .programHead ih ih.stmt).next ?_
    intro completion k hrun _
    exact h.leaves (.programTail hrun) ih hrest

/-- All that a visit comes to is in frames that are those around it. -/
theorem Ready.visits {u v : Visit} (h : w.Ready around u) (hv : Visits u v) :
    ∃ w' around', w.Le w' ∧ w'.Ready around' v := by
  induction hv with
  | refl => exact ⟨w, around, .refl w, h⟩
  | tail _ hs ih =>
    obtain ⟨w₁, around₁, hw₁, h₁⟩ := ih
    obtain ⟨w₂, around₂, hw₂, h₂⟩ := h₁.starts hs (keeping _)
    exact ⟨w₂, around₂, hw₁.trans hw₂, h₂⟩

/-- However a visit ends, the machine is as a chronicle says. -/
theorem Ready.after {v : Visit} (h : w.Ready around v) : ∃ w', w.Le w' ∧ w'.Holds v.after := by
  obtain ⟨n, task, m⟩ := v
  have ih := keeping n
  cases task with
  | expr x e => exact (ih.expr h).machine
  | exprs x es => exact (ih.exprs h).machine
  | stmt s => exact (ih.stmt h).machine
  | stmts body => exact (ih.stmts h).machine
  | loop condition body => exact (ih.loop h).machine
  | program statements => exact (leaves_program h).machine
  | read o => exact (leaves_lookUp h.machine o).machine
  | write x target value =>
    exact (leaves_assign h.machine h.fits (h.machine.written (h.past _ .refl) rfl)).machine
  | super keyword method => exact (leaves_superMethod h.machine keyword method).machine
  | call callee line arguments => exact (ih.call h).machine
  | apply closure arguments => exact (ih.apply h).machine
  | construct c arguments => exact (ih.construct h).machine
  | makeClass name parent methods => exact (leaves_makeClass h).machine

end Chronicle

end LoxLang
