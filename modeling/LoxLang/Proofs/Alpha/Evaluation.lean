import LoxLang.Proofs.Alpha.Machines

/-!
# Evaluation of programs that are alike

Programs that are alike are evaluated in the same way.

1. `Located.Alpha.inStep`: expressions and statements.
2. `Located.Alpha.simulates_program`: programs.
-/

namespace LoxLang.Located

namespace Alpha

variable {L : Nat → Nat → Prop} {ρ : Option Pairing}

/-! ## Variables -/

theorem simulates_lookUp {o o' : Occurrence} (h : o.Alike L (Pairing.known ρ) o') :
    Simulates L ρ (Same L) (Eval.lookUp o) (Eval.lookUp o') := by
  refine Simulates.bind simulates_known fun places places' hplaces => ?_
  rcases hplaces.get? h.name with ⟨l, hl, hl'⟩ | ⟨hl, hl', hname⟩
  · rw [hl, hl']
    exact simulates_read l
  · rw [hl, hl', hname]
    exact Simulates.bind (simulates_look fun _ _ hm => hm.globals.get? _) fun _ _ hv =>
      simulates_require h.line _ hv

theorem simulates_assign {o o' : Occurrence} (h : o.Alike L (Pairing.known ρ) o')
    {v v' : Value Places} (hv : Same L v v') :
    Simulates L ρ Eq (Eval.assign o v) (Eval.assign o' v') := by
  refine Simulates.bind simulates_known fun places places' hplaces => ?_
  rcases hplaces.get? h.name with ⟨l, hl, hl'⟩ | ⟨hl, hl', hname⟩
  · rw [hl, hl']
    exact simulates_write l hv
  · rw [hl, hl', hname]
    refine Simulates.bind (R := Eq) (simulates_look fun _ _ hm => hm.globals.has_eq _) ?_
    rintro bound - rfl
    split
    · exact simulates_define (fun _ => rfl) hv
    · exact moves_fail h.line _

/-! ## Functions and objects -/

theorem simulates_function {c c' : Closure Places} (h : SameFunction L c c') :
    Simulates L ρ (Same L) (Eval.function c) (Eval.function c') := by
  refine Simulates.bind simulates_freshId ?_
  rintro id - rfl
  exact simulates_pure (.function id h)

/-- A method for which `this` is known is a function. -/
theorem simulates_bindThis {c c' : Closure Places} (h : SameMethod L c c') {v v' : Value Places}
    (hv : Same L v v') :
    Simulates L ρ (fun f f' => SameFunction L f f' ∧ f.decl = c.decl) (Eval.bindThis c v)
      (Eval.bindThis c' v') := by
  obtain ⟨hi, ρ', hplaces, hdecl⟩ := h
  refine Simulates.bind (simulates_allocate hv) ?_
  rintro location - rfl
  exact simulates_pure
    ⟨⟨hi, _, hplaces.cons "this" "this" location, hdecl, fun _ => .inl ⟨rfl, rfl⟩⟩, rfl⟩

theorem simulates_method {c c' : Closure Places} (h : SameMethod L c c') {v v' : Value Places}
    (hv : Same L v v') :
    Simulates L ρ (Same L) (do Eval.function (← Eval.bindThis c v))
      (do Eval.function (← Eval.bindThis c' v')) :=
  Simulates.bind (simulates_bindThis h hv) fun _ _ hf => simulates_function hf.1

theorem simulates_property (address : Nat) {c c' : Class Places} (h : c.Alike (likeness L) c')
    {name name' : Token} (hname : name.Alike L name') :
    Simulates L ρ (Same L) (Eval.property address c name) (Eval.property address c' name') := by
  unfold Eval.property
  rw [← hname.lexeme]
  refine Simulates.bind (simulates_field? address name.lexeme) ?_
  rintro v v' hv
  cases hv with
  | some hv => exact simulates_pure hv
  | none =>
    exact Simulates.bind (simulates_require hname.line _ (h.method? name.lexeme)) fun f f' hf =>
      simulates_method hf (.object address h)

theorem simulates_inherited {line line' : Nat} (hl : L line line') {method method' : Token}
    (hmethod : method.Alike L method') {parent parent' this this' : Value Places}
    (hparent : Same L parent parent') (hthis : Same L this this') :
    Simulates L ρ (Same L) (Eval.inherited line method parent this)
      (Eval.inherited line' method' parent' this') := by
  cases hparent with
  | classValue hclass =>
    cases hthis with
    | object address hobject =>
      unfold Eval.inherited
      rw [← hmethod.lexeme]
      exact Simulates.bind (simulates_require hmethod.line _ (hclass.method? method.lexeme))
        fun f f' hf => simulates_method hf (.object address hobject)
    | _ => exact moves_fail hl _
  | _ => exact moves_fail hl _

theorem simulates_superMethod {o o' : Occurrence} (hl : L o.token.line o'.token.line)
    (hsuper : (Pairing.known ρ).Pairs "super" "super")
    (hthis : (Pairing.known ρ).Pairs "this" "this") {method method' : Token}
    (hmethod : method.Alike L method') :
    Simulates L ρ (Same L) (Eval.superMethod o method) (Eval.superMethod o' method') := by
  have hget : ∀ {places places' : Places} {x : String},
      SamePlaces (Pairing.known ρ) places places' → (Pairing.known ρ).Pairs x x →
      Option.Rel Eq (Bindings.get? places x) (Bindings.get? places' x) := by
    intro places places' x hplaces hx
    rcases hplaces.get? hx with ⟨l, hl, hl'⟩ | ⟨hl, hl', -⟩
    · rw [hl, hl']
      exact .some rfl
    · rw [hl, hl']
      exact .none
  refine Simulates.bind simulates_known fun places places' hplaces => ?_
  refine Simulates.bind (simulates_require hl _ (hget hplaces hsuper)) ?_
  rintro parent - rfl
  refine Simulates.bind (simulates_require hl _ (hget hplaces hthis)) ?_
  rintro this - rfl
  refine Simulates.bind (simulates_read parent) fun v v' hv => ?_
  exact Simulates.bind (simulates_read this) fun u u' hu => simulates_inherited hl hmethod hv hu

/-! ## Calls -/

/-- Two completions with values that are alike. -/
inductive SameCompletion (L : Nat → Nat → Prop) : Completion → Completion → Prop
  | normal : SameCompletion L .normal .normal
  | returned {v v' : Value Places} : Same L v v' → SameCompletion L (.returned v) (.returned v')

theorem simulates_arity? {v v' : Value Places} (hv : Same L v v') :
    Simulates L ρ (Option.Rel fun n n' => n = n' ∧ Takes n v) (Eval.arity? v) (Eval.arity? v') := by
  cases hv with
  | native index =>
    refine simulates_look fun m m' hm => ?_
    rw [hm.natives]
    cases m'.natives[index]? with
    | none => exact .none
    | some f => exact .some ⟨rfl, trivial⟩
  | function id hf => exact simulates_pure (.some ⟨(likeness L).function_arity hf, rfl⟩)
  | classValue hc => exact simulates_pure (.some ⟨hc.arity_eq, rfl⟩)
  | _ => exact simulates_pure .none

theorem simulates_native (index : Nat) {line line' : Nat} (hl : L line line')
    {vs vs' : List (Value Places)} (hvs : List.Forall₂ (Same L) vs vs') :
    Simulates L ρ (Same L) (Eval.native index line vs) (Eval.native index line' vs') := by
  have hlook : Simulates L ρ (Option.Rel NativeBody.Alike)
      (Step.look fun m : Machine => m.natives[index]?.map Native.body)
      (Step.look fun m : Machine => m.natives[index]?.map Native.body) := by
    refine simulates_look fun m m' hm => ?_
    rw [← hm.natives]
    cases hf : m.natives[index]? with
    | none => exact .none
    | some f => exact .some (hm.hosts f (Array.mem_of_getElem? hf)).body
  refine Simulates.bind hlook ?_
  intro o o' ho
  cases ho with
  | none => exact moves_fail hl _
  | some hbody =>
    cases hbody with
    | clock => exact simulates_tell
    | @host run run' hhost =>
      exact simulates_lift hl (SameResult.mapError (hhost (likeness L) vs vs' hvs) _)

variable {run : List Stmt → Eval Completion}

/-- Statements are run alike. -/
def RunsAlike (L : Nat → Nat → Prop) (run : List Stmt → Eval Completion) : Prop :=
  ∀ {ρ : Option Pairing} {body body' : List Stmt}, Stmt.AllAlike L ρ body body' →
    Ends L ρ (SameCompletion L) (run body) (run body')

theorem simulates_apply (hrun : RunsAlike L run) {c c' : Closure Places} (h : SameFunction L c c')
    {vs vs' : List (Value Places)} (hvs : List.Forall₂ (Same L) vs vs')
    (hlength : vs.length = c.arity) :
    Simulates L ρ (Same L) (Eval.apply run c vs) (Eval.apply run c' vs') := by
  obtain ⟨hi, ρ', hscope, hdecl, hthis⟩ := h
  refine Simulates.bind (SamePlaces.bindAll hvs hdecl.length_params hlength hscope) ?_
  intro places places' hplaces
  refine Simulates.bind (simulates_within hplaces (hrun hdecl.body)) ?_
  intro completion completion' hcompletion
  rw [← hi]
  split
  · next hinit =>
    rcases hscope.get? (hthis hinit) with ⟨l, hl, hl'⟩ | ⟨hl, hl', -⟩
    · rw [hl, hl']
      exact simulates_read l
    · rw [hl, hl']
      exact simulates_pure .nil
  · cases hcompletion with
    | normal => exact simulates_pure .nil
    | returned hv => exact simulates_pure hv

theorem simulates_construct (hrun : RunsAlike L run) {c c' : Class Places}
    (h : c.Alike (likeness L) c') {vs vs' : List (Value Places)}
    (hvs : List.Forall₂ (Same L) vs vs') (hlength : vs.length = c.arity) :
    Simulates L ρ (Same L) (Eval.construct run c vs) (Eval.construct run c' vs') := by
  refine Simulates.bind (simulates_newObject h) ?_
  intro object object' hobject
  rcases rel_cases (h.method? FunctionDecl.initializerName) with ⟨hi, hi'⟩ | ⟨f, f', hi, hi', hf⟩
  · simp only [Class.initializer?, hi, hi']
    exact simulates_pure hobject
  · have harity : vs.length = f.arity := by simp [hlength, Class.arity, Class.initializer?, hi]
    simp only [Class.initializer?, hi, hi']
    refine Simulates.bind (simulates_bindThis hf hobject) ?_
    rintro g g' ⟨hg, hdecl⟩
    have hgarity : vs.length = g.arity := by rw [harity, Closure.arity, Closure.arity, hdecl]
    exact Simulates.bind (simulates_apply hrun hg hvs hgarity) fun _ _ _ => simulates_pure hobject

theorem simulates_call (hrun : RunsAlike L run) {v v' : Value Places} (hv : Same L v v')
    {line line' : Nat} (hl : L line line') {vs vs' : List (Value Places)}
    (hvs : List.Forall₂ (Same L) vs vs') :
    Simulates L ρ (Same L) (Eval.call run v line vs) (Eval.call run v' line' vs') := by
  refine Simulates.bind (simulates_arity? hv) fun o o' ho => ?_
  refine Simulates.bind (simulates_require hl _ ho) ?_
  rintro arity arity' ⟨rfl, htakes⟩
  refine Simulates.bind (R := Eq) (simulates_look fun m m' hm => hm.depth) ?_
  rintro depth - rfl
  rw [← hvs.length_eq]
  split
  · exact moves_fail hl _
  · next hlength =>
    have hlength : vs.length = arity := Decidable.of_not_not hlength
    split
    · exact moves_fail hl _
    · refine simulates_counted ?_
      cases hv with
      | native index => exact simulates_native index hl hvs
      | function id hf => exact simulates_apply hrun hf hvs (hlength.trans htakes.symm)
      | classValue hc => exact simulates_construct hrun hc hvs (hlength.trans htakes.symm)
      | _ => exact moves_fail hl _

/-! ## Classes -/

theorem simulates_superclass? {o o' : Option Occurrence}
    (h : Option.Rel (Occurrence.Alike L (Pairing.known ρ)) o o') :
    Simulates L ρ (fun c c' => Option.Rel (Class.Alike (likeness L)) c c' ∧ o.isSome = c.isSome)
      (Eval.superclass? o) (Eval.superclass? o') := by
  cases h with
  | none => exact simulates_pure ⟨.none, rfl⟩
  | some h =>
    refine Simulates.bind (simulates_lookUp h) fun v v' hv => ?_
    cases hv with
    | classValue hc => exact simulates_pure ⟨.some hc, rfl⟩
    | _ => exact moves_fail h.line _

theorem simulates_methodPlaces {α : Type} {superclass : Option α}
    {parent parent' : Option (Class Places)}
    (hparent : Option.Rel (Class.Alike (likeness L)) parent parent')
    (hsuperclass : superclass.isSome = parent.isSome) :
    Simulates L ρ (SamePlaces (Pairing.inherit superclass (Pairing.known ρ)))
      (Eval.methodPlaces parent) (Eval.methodPlaces parent') := by
  refine Simulates.bind simulates_known fun places places' hplaces => ?_
  cases hparent with
  | none =>
    obtain rfl : superclass = none := by simpa using hsuperclass
    exact simulates_pure hplaces
  | some hc =>
    obtain ⟨o, rfl⟩ := Option.isSome_iff_exists.1 hsuperclass
    refine Simulates.bind (simulates_allocate (.classValue hc)) ?_
    rintro location - rfl
    exact simulates_pure (hplaces.cons "super" "super" location)

theorem forall₂_methods {ρ : Pairing} {places places' : Places}
    (hplaces : SamePlaces ρ places places') {methods methods' : List FunctionDecl}
    (h : FunctionDecl.AllAlike L (("this", "this") :: ρ) methods methods') :
    List.Forall₂ (SameMethod L) (methods.map fun decl => ⟨decl, places, decl.isInitializer⟩)
      (methods'.map fun decl => ⟨decl, places', decl.isInitializer⟩) := by
  induction methods generalizing methods' with
  | nil =>
    cases h
    exact .nil
  | cons m methods ih =>
    cases h with
    | cons hm hrest => exact .cons ⟨hm.isInitializer_eq, ρ, hplaces, hm⟩ (ih hrest)

theorem moves_classDecl {name name' : Token} (hname : name.lexeme = name'.lexeme)
    {superclass superclass' : Option Occurrence}
    (hsuperclass : Option.Rel (Occurrence.Alike L (Pairing.known ρ)) superclass superclass')
    {methods methods' : List FunctionDecl}
    (hmethods : FunctionDecl.AllAlike L (("this", "this") :: Pairing.inherit superclass
      (Pairing.known (Pairing.declare name.lexeme name'.lexeme ρ))) methods methods') :
    Moves L ρ (Pairing.declare name.lexeme name'.lexeme ρ) Eq
      (Eval.classDecl name superclass methods) (Eval.classDecl name' superclass' methods') := by
  refine Simulates.bind (simulates_superclass? hsuperclass) ?_
  rintro parent parent' ⟨hparent, hsome⟩
  refine Moves.bind (moves_declare name.lexeme name'.lexeme) (Pairing.declare_eq_none · _ _) ?_
  rintro location? - ⟨rfl, -⟩
  refine Simulates.bind (simulates_define (fun _ => hname) .nil) fun _ _ _ => ?_
  refine Simulates.bind (simulates_methodPlaces hparent hsome) fun places places' hplaces => ?_
  refine Simulates.bind simulates_freshId ?_
  rintro id - rfl
  refine simulates_define (fun _ => hname)
    (.classValue ⟨⟨rfl, hname, forall₂_methods hplaces hmethods⟩, ?_⟩)
  cases hparent with
  | none => exact .nil
  | some hc => exact hc.chain

/-! ## Expressions and statements -/

/-- Everything that is evaluated within a budget is evaluated alike. -/
structure InStep (L : Nat → Nat → Prop) (n : Nat) : Prop where
  expr : ∀ {ρ : Option Pairing} {e e' : Expr}, e.Alike L (Pairing.known ρ) e' →
    Simulates L ρ (Same L) (Eval.expr n e) (Eval.expr n e')
  exprs : ∀ {ρ : Option Pairing} {es es' : List Expr}, Expr.AllAlike L (Pairing.known ρ) es es' →
    Simulates L ρ (List.Forall₂ (Same L)) (Eval.exprs n es) (Eval.exprs n es')
  stmt : ∀ {ρ : Option Pairing} {s s' : Stmt}, s.Alike L ρ s' →
    Moves L ρ (Pairing.after s s' ρ) (SameCompletion L) (Eval.stmt n s) (Eval.stmt n s')
  stmts : RunsAlike L (Eval.stmts n)
  loop : ∀ {ρ : Option Pairing} {condition condition' : Expr} {body body' : Stmt},
    condition.Alike L (Pairing.known ρ) condition' → body.Alike L ρ body' →
    Pairing.after body body' ρ = ρ →
    Simulates L ρ (SameCompletion L) (Eval.loop n condition body) (Eval.loop n condition' body')

namespace InStep

variable {n : Nat} (h : InStep L n)
include h

theorem succ_expr {e e' : Expr} (he : e.Alike L (Pairing.known ρ) e') :
    Simulates L ρ (Same L) (Eval.expr (n + 1) e) (Eval.expr (n + 1) e') := by
  cases he with
  | literal value => exact simulates_pure (Value.ofLiteral_alike value)
  | grouping hinner => exact h.expr hinner
  | unary hoperator hoperand =>
    refine Simulates.bind (h.expr hoperand) fun v v' hv => ?_
    rw [← hoperator.kind]
    exact simulates_lift hoperator.line (Operator.unary_alike _ hv)
  | binary hleft hoperator hright =>
    refine Simulates.bind (h.expr hleft) fun v v' hv => ?_
    refine Simulates.bind (h.expr hright) fun u u' hu => ?_
    rw [← hoperator.kind]
    exact simulates_lift hoperator.line (Operator.binary_alike _ hv hu)
  | logical hleft hoperator hright =>
    refine Simulates.bind (h.expr hleft) fun v v' hv => ?_
    rw [← hoperator.kind, ← Operator.decides_eq _ hv]
    split
    · exact simulates_pure hv
    · exact h.expr hright
  | var hname => exact simulates_lookUp hname
  | assign htarget hvalue =>
    refine Simulates.bind (h.expr hvalue) fun v v' hv => ?_
    exact Simulates.bind (simulates_assign htarget hv) fun _ _ _ => simulates_pure hv
  | call hcallee hclose harguments =>
    refine Simulates.bind (h.expr hcallee) fun v v' hv => ?_
    refine Simulates.bind (h.exprs harguments) fun vs vs' hvs => ?_
    exact simulates_call h.stmts hv hclose.line hvs
  | get hobject hname =>
    refine Simulates.bind (h.expr hobject) fun v v' hv => ?_
    cases hv with
    | object address hc => exact simulates_property address hc hname
    | _ => exact moves_fail hname.line _
  | set hobject hname hvalue =>
    refine Simulates.bind (h.expr hobject) fun v v' hv => ?_
    cases hv with
    | object address hc =>
      refine Simulates.bind (h.expr hvalue) fun u u' hu => ?_
      rw [← hname.lexeme]
      exact Simulates.bind (simulates_setField address _ hu) fun _ _ _ => simulates_pure hu
    | _ => exact moves_fail hname.line _
  | this hkeyword => exact simulates_lookUp hkeyword
  | super hl hsuper hthis hmethod => exact simulates_superMethod hl hsuper hthis hmethod

theorem succ_exprs {es es' : List Expr} (hes : Expr.AllAlike L (Pairing.known ρ) es es') :
    Simulates L ρ (List.Forall₂ (Same L)) (Eval.exprs (n + 1) es) (Eval.exprs (n + 1) es') := by
  cases hes with
  | nil => exact simulates_pure .nil
  | cons he hrest =>
    refine Simulates.bind (h.expr he) fun v v' hv => ?_
    exact Simulates.bind (h.exprs hrest) fun vs vs' hvs => simulates_pure (.cons hv hvs)

theorem succ_stmt {s s' : Stmt} (hs : s.Alike L ρ s') :
    Moves L ρ (Pairing.after s s' ρ) (SameCompletion L) (Eval.stmt (n + 1) s)
      (Eval.stmt (n + 1) s') := by
  cases hs with
  | expression hvalue =>
    exact Simulates.bind (h.expr hvalue) fun _ _ _ => simulates_pure .normal
  | print hvalue =>
    refine Simulates.bind (h.expr hvalue) fun v v' hv => ?_
    rw [← hv.text_eq]
    exact Simulates.bind (simulates_printLine v.text) fun _ _ _ => simulates_pure .normal
  | @varDecl _ name name' _ _ hname hinitializer =>
    cases hinitializer with
    | none =>
      refine Moves.bind (moves_declare name.lexeme name'.lexeme) (Pairing.declare_eq_none · _ _) ?_
      rintro location? location?' ⟨rfl, hl⟩
      exact Simulates.bind (simulates_define (fun h => hname (hl h)) .nil) fun _ _ _ =>
        simulates_pure .normal
    | some hvalue =>
      refine Moves.bind (moves_declare name.lexeme name'.lexeme) (Pairing.declare_eq_none · _ _) ?_
      rintro location? location?' ⟨rfl, hl⟩
      refine Simulates.bind (h.expr hvalue) fun v v' hv => ?_
      exact Simulates.bind (simulates_define (fun h => hname (hl h)) hv) fun _ _ _ =>
        simulates_pure .normal
  | block hbody =>
    refine Simulates.bind simulates_known fun places places' hplaces => ?_
    exact simulates_within hplaces (h.stmts hbody)
  | ifThen hcondition hthen hafter =>
    refine Simulates.bind (h.expr hcondition) fun v v' hv => ?_
    rw [← hv.truthy_eq]
    split
    · have hbranch := h.stmt hthen
      rwa [hafter] at hbranch
    · exact simulates_pure .normal
  | ifElse hcondition hthen hafter helse hafter' =>
    refine Simulates.bind (h.expr hcondition) fun v v' hv => ?_
    rw [← hv.truthy_eq]
    split
    · have hbranch := h.stmt hthen
      rwa [hafter] at hbranch
    · have hbranch := h.stmt helse
      rwa [hafter'] at hbranch
  | whileDo hcondition hbody hafter => exact h.loop hcondition hbody hafter
  | @funDecl _ decl decl' hdecl =>
    refine Moves.bind (moves_declare decl.name.lexeme decl'.name.lexeme)
      (Pairing.declare_eq_none · _ _) ?_
    rintro location? - ⟨rfl, -⟩
    refine Simulates.bind simulates_known fun places places' hplaces => ?_
    have hfunction : SameFunction L ⟨decl, places, false⟩ ⟨decl', places', false⟩ :=
      ⟨rfl, _, hplaces, hdecl, nofun⟩
    refine Simulates.bind (simulates_function hfunction) fun v v' hv => ?_
    exact Simulates.bind (simulates_define (fun _ => hdecl.name_eq) hv) fun _ _ _ =>
      simulates_pure .normal
  | ret hvalue =>
    cases hvalue with
    | none => exact simulates_pure (.returned .nil)
    | some hvalue =>
      exact Simulates.bind (h.expr hvalue) fun v v' hv => simulates_pure (.returned hv)
  | classDecl hname hsuperclass hmethods =>
    exact Moves.bind (moves_classDecl hname hsuperclass hmethods)
      (Pairing.declare_eq_none · _ _) fun _ _ _ => simulates_pure .normal

theorem succ_stmts : RunsAlike L (Eval.stmts (n + 1)) := by
  intro ρ body body' hbody
  cases hbody with
  | nil => exact (simulates_pure .normal).ends
  | cons hs hrest =>
    refine Moves.bind_ends (h.stmt hs) (Pairing.after_eq_none · _ _) ?_
    intro completion completion' hcompletion
    cases hcompletion with
    | normal => exact h.stmts hrest
    | returned hv => exact (simulates_pure (.returned hv)).ends

theorem succ_loop {condition condition' : Expr} {body body' : Stmt}
    (hcondition : condition.Alike L (Pairing.known ρ) condition') (hbody : body.Alike L ρ body')
    (hafter : Pairing.after body body' ρ = ρ) :
    Simulates L ρ (SameCompletion L) (Eval.loop (n + 1) condition body)
      (Eval.loop (n + 1) condition' body') := by
  refine Simulates.bind (h.expr hcondition) fun v v' hv => ?_
  rw [← hv.truthy_eq]
  split
  · have hturn := h.stmt hbody
    rw [hafter] at hturn
    refine Simulates.bind hturn fun completion completion' hcompletion => ?_
    cases hcompletion with
    | normal => exact h.loop hcondition hbody hafter
    | returned hv => exact simulates_pure (.returned hv)
  · exact simulates_pure .normal

theorem succ : InStep L (n + 1) :=
  ⟨h.succ_expr, h.succ_exprs, h.succ_stmt, h.succ_stmts, h.succ_loop⟩

end InStep

/-- Programs that are alike are evaluated alike, within the same budget. -/
theorem inStep (L : Nat → Nat → Prop) (n : Nat) : InStep L n := by
  induction n with
  | zero =>
    exact ⟨fun _ => moves_exhausted, fun _ => moves_exhausted, fun _ => moves_exhausted,
      fun _ => Simulates.ends moves_exhausted, fun _ _ _ => moves_exhausted⟩
  | succ n ih => exact ih.succ

/-! ## Programs -/

theorem simulates_program (n : Nat) {statements statements' : List Stmt}
    (h : Stmt.AllAlike L none statements statements') :
    Simulates L none Eq (Eval.program n statements) (Eval.program n statements') := by
  induction statements generalizing statements' with
  | nil =>
    cases h
    exact simulates_flush
  | cons s rest ih =>
    cases h with
    | cons hs hrest =>
      have hout := fun s s' => Pairing.after_eq_none (rfl : (none : Option Pairing) = none) s s'
      have hs := (inStep L n).stmt hs
      rw [hout] at hs hrest
      exact Simulates.bind hs fun _ _ _ => ih hrest

end Alpha

end LoxLang.Located
