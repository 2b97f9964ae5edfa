import LoxLang.Proofs.Copies.Machines
import LoxLang.Proofs.Values.Sequences

/-!
# Evaluation of copies

A copy of a piece of code is evaluated as the piece itself, wherever it stands. Its failures have
the lines of the copy.

1. `Copy.inStep`: expressions and statements.
2. `Copy.simulates_sequence`: the statements of a program.
-/

namespace LoxLang

namespace Copy

variable {w : Copy} {d : Move}

/-! ## Variables -/

/-- A name that a piece of code has may mean anything. -/
def Binds (w : Copy) (name : String) : Prop :=
  ∀ v, w.binds name v

/-- The same is known about a mention and about its copies. -/
def Knows (w : Copy) (o : Occurrence) : Prop :=
  ∀ {d}, w.moves d → w.known[o.id]? = w.known'[(o.move d).id]?

theorem simulates_distance (hd : w.moves d) {o : Occurrence} (h : w.Knows o) :
    w.Simulates Eq (Step.look fun m => m.distances[o.id]?)
      (Step.look fun m => m.distances[(o.move d).id]?) :=
  simulates_look fun m m' hm => by
    rw [hm.known, hm.known']
    exact h hd

theorem simulates_target (hd : w.moves d) {o : Occurrence} (h : w.Knows o) :
    w.Simulates Eq (Eval.target o) (Eval.target (o.move d)) := by
  refine (simulates_distance hd h).bind ?_
  rintro distance? - rfl
  refine Simulates.bind (R := Eq) (simulates_look fun m m' hm => ?_) ?_
  · rw [hm.scope, hm.owner?]
    rfl
  · rintro found - rfl
    exact simulates_require hd o.token.line _ (rel_eq found)

theorem simulates_lookUp (hd : w.moves d) {o : Occurrence} (h : w.Knows o) :
    w.Simulates w.Same (Eval.lookUp o) (Eval.lookUp (o.move d)) := by
  refine (simulates_target hd h).bind ?_
  rintro i - rfl
  refine (simulates_look fun m m' hm => (hm.frame i).get? o.name).bind ?_
  intro v v' hv
  exact simulates_require hd o.token.line _ hv

theorem simulates_assign (hd : w.moves d) {o : Occurrence} (h : w.Knows o) (hb : w.Binds o.name)
    {v v' : Value} (hv : w.Same v v') :
    w.Simulates Eq (Eval.assign o v) (Eval.assign (o.move d) v') := by
  refine (simulates_target hd h).bind ?_
  rintro i - rfl
  exact simulates_put i hv (hb v)

theorem simulates_assignClass (hd : w.moves d) {name : Token} (hb : w.Binds name.lexeme)
    {v v' : Value} (hv : w.Same v v') :
    w.Simulates Eq (Eval.assignClass name v) (Eval.assignClass (name.move d) v') := by
  refine Simulates.bind (R := Option.Rel Eq) (simulates_look fun m m' hm => ?_) ?_
  · rw [hm.scope, hm.owner?]
    exact rel_eq _
  · intro o o' ho
    refine (simulates_require hd name.line _ ho).bind ?_
    rintro i - rfl
    exact simulates_put i hv (hb v)

theorem simulates_implicit (hd : w.moves d) (distance : Nat) (name : String) (line : Nat) :
    w.Simulates w.Same (Eval.implicit distance name line)
      (Eval.implicit distance name (d.line line)) := by
  refine (simulates_look fun m m' hm => ?_).bind fun o o' ho => simulates_require hd line _ ho
  rw [hm.scope]
  exact hm.getAt? m'.scope distance name

/-! ## Functions and objects -/

theorem binds_single {x : String} {v : Value} (hb : w.binds x v) {y : String} {u : Value}
    (h : Bindings.get? [(x, v)] y = some u) : w.binds y u := by
  rw [Bindings.get?_cons] at h
  split at h
  · next hy => exact hy ▸ Option.some.inj h ▸ hb
  · exact nomatch h

theorem simulates_function {c c' : Closure} (h : w.SameClosure c c') :
    w.Simulates w.Same (Eval.function c) (Eval.function c') := by
  refine simulates_freshId.bind ?_
  rintro id - rfl
  exact .pure (.function id h)

theorem simulates_bindThis {c c' : Closure} (h : w.SameClosure c c') {v v' : Value}
    (hv : w.Same v v') (hb : w.binds "this" v) :
    w.Simulates w.SameClosure (Eval.bindThis c v) (Eval.bindThis c' v') := by
  have hthis : w.SameBindings [("this", v)] [("this", v')] := .cons ⟨rfl, hv⟩ .nil
  refine (simulates_openScope h.scope hthis (binds_single hb)).bind ?_
  rintro scope - rfl
  exact .pure ⟨h.decl, h.code, rfl, h.isInitializer⟩

theorem simulates_method {c c' : Closure} (h : w.SameClosure c c') {v v' : Value}
    (hv : w.Same v v') (hb : w.binds "this" v) :
    w.Simulates w.Same (do Eval.function (← Eval.bindThis c v))
      (do Eval.function (← Eval.bindThis c' v')) :=
  (simulates_bindThis h hv hb).bind fun _ _ hf => simulates_function hf

theorem simulates_property (hd : w.moves d) (address : Nat) {c c' : Class}
    (h : c.Alike w.likeness c') (name : Token) :
    w.Simulates w.Same (Eval.property address c name)
      (Eval.property address c' (name.move d)) := by
  refine (simulates_field? address name.lexeme).bind ?_
  rintro v v' hv
  cases hv with
  | some hv => exact .pure hv
  | none =>
    refine (simulates_require hd name.line _ (h.method? name.lexeme)).bind ?_
    intro f f' hf
    exact simulates_method hf (.object address h) (w.this address c)

theorem simulates_inherited (hd : w.moves d) (line : Nat) (method : Token)
    {parent parent' this this' : Value} (hparent : w.Same parent parent')
    (hthis : w.Same this this') :
    w.Simulates w.Same (Eval.inherited line method parent this)
      (Eval.inherited (d.line line) (method.move d) parent' this') := by
  cases hparent with
  | classValue hclass =>
    cases hthis with
    | object address hobject =>
      refine (simulates_require hd method.line _ (hclass.method? method.lexeme)).bind ?_
      intro f f' hf
      exact simulates_method hf (.object address hobject) (w.this address _)
    | _ => exact simulates_fail hd _ _
  | _ => exact simulates_fail hd _ _

theorem simulates_superMethod (hd : w.moves d) {o : Occurrence} (h : w.Knows o) (method : Token) :
    w.Simulates w.Same (Eval.superMethod o method)
      (Eval.superMethod (o.move d) (method.move d)) := by
  refine (simulates_distance hd h).bind ?_
  rintro distance? - rfl
  refine (simulates_require hd o.token.line _ (rel_eq _)).bind ?_
  rintro distance - rfl
  refine (simulates_implicit hd distance "super" o.token.line).bind ?_
  intro parent parent' hparent
  refine (simulates_implicit hd (distance - 1) "this" o.token.line).bind ?_
  intro this this' hthis
  exact simulates_inherited hd o.token.line method hparent hthis

/-! ## Calls -/

/-- Two completions with values that are the same. -/
inductive SameCompletion (w : Copy) : Completion → Completion → Prop
  | normal : SameCompletion w .normal .normal
  | returned {v v' : Value} : w.Same v v' → SameCompletion w (.returned v) (.returned v')

theorem simulates_arity? {v v' : Value} (hv : w.Same v v') :
    w.Simulates (Option.Rel Eq) (Eval.arity? v) (Eval.arity? v') := by
  cases hv with
  | native index =>
    refine simulates_look fun m m' hm => ?_
    rw [hm.natives]
    exact rel_eq _
  | function id hf => exact .pure (.some hf.arity_eq)
  | classValue hc => exact .pure (.some hc.arity_eq)
  | _ => exact .pure .none

/-- A function of the host cannot look into the functions among its arguments. -/
theorem simulates_native (hd : w.moves d) (index line : Nat) {vs vs' : List Value}
    (hvs : List.Forall₂ w.Same vs vs') :
    w.Simulates w.Same (Eval.native index line vs) (Eval.native index (d.line line) vs') := by
  have hlook : w.Simulates (Option.Rel NativeBody.Alike)
      (Step.look fun m => m.natives[index]?.map Native.body)
      (Step.look fun m => m.natives[index]?.map Native.body) := by
    refine simulates_look fun m m' hm => ?_
    rw [← hm.natives]
    cases hf : m.natives[index]? with
    | none => exact .none
    | some f => exact .some (hm.hosts f (Array.mem_of_getElem? hf)).body
  refine hlook.bind ?_
  intro o o' ho
  cases ho with
  | none => exact simulates_fail hd line _
  | some hbody =>
    cases hbody with
    | clock => exact simulates_tell
    | @host run run' hhost =>
      exact simulates_lift hd line (SameResult.mapError (hhost w.likeness vs vs' hvs) _)

/-- Arguments are bound to parameters in order. -/
theorem sameBindings_zip {names : List String} {vs vs' : List Value}
    (hvs : List.Forall₂ w.Same vs vs') {b b' : Bindings Value} (hb : w.SameBindings b b') :
    w.SameBindings ((names.zip vs).foldl (fun b (name, value) => Bindings.put name value b) b)
      ((names.zip vs').foldl (fun b (name, value) => Bindings.put name value b) b') := by
  induction hvs generalizing names b b' with
  | nil =>
    rw [List.zip_nil_right]
    exact hb
  | cons hv _ ih =>
    cases names with
    | nil => exact hb
    | cons name names => exact ih (hb.put name hv)

theorem SameClosure.contents {c c' : Closure} (h : w.SameClosure c c') {vs vs' : List Value}
    (hvs : List.Forall₂ w.Same vs vs') : w.SameBindings (c.contents vs) (c'.contents vs') := by
  obtain ⟨⟨d, -, hdecl⟩, -, -, -⟩ := h
  obtain ⟨⟨name, params, body⟩, scope, isInitializer⟩ := c
  have hnames : c'.decl.params.map Token.lexeme = params.map Token.lexeme := by
    rw [hdecl]
    simp [FunctionDecl.move, Function.comp_def]
  unfold Closure.contents
  rw [hnames]
  exact sameBindings_zip hvs .nil

/-- Parameters are names of the code. -/
theorem SameClosure.binds {c c' : Closure} (h : w.SameClosure c c') {vs : List Value} {x : String}
    {v : Value} (hv : Bindings.get? (c.contents vs) x = some v) : w.binds x v := by
  rcases Bindings.mem_of_get?_zip hv with ⟨hx, -⟩ | hx
  · exact w.named h.code x hx v
  · exact nomatch hx

variable {run : List Stmt → Eval Completion}

/-- Copies of statements are run as the statements are. -/
def RunsAlike (w : Copy) (run : List Stmt → Eval Completion) : Prop :=
  ∀ {d : Move} {body : List Stmt}, w.moves d → (∀ s ∈ body, w.code (.stmt s)) →
    w.Simulates w.SameCompletion (run body) (run (Stmt.moveAll d body))

theorem simulates_apply (hrun : w.RunsAlike run) {c c' : Closure} (h : w.SameClosure c c')
    {vs vs' : List Value} (hvs : List.Forall₂ w.Same vs vs') :
    w.Simulates w.Same (Eval.apply run c vs) (Eval.apply run c' vs') := by
  have hbody : w.Simulates w.SameCompletion (run c.decl.body) (run c'.decl.body) := by
    obtain ⟨⟨d, hd, hdecl⟩, hcode, -, -⟩ := h
    have hbody : ∀ s ∈ c.decl.body, w.code (.stmt s) := fun s hs =>
      w.parts hcode _ (List.mem_map_of_mem hs)
    rw [hdecl, show (c.decl.move d).body = Stmt.moveAll d c.decl.body by cases c.decl; rfl]
    exact hrun hd hbody
  refine (simulates_openScope h.scope (h.contents hvs) h.binds).bind ?_
  rintro scope - rfl
  refine (simulates_within rfl hbody).bind ?_
  intro completion completion' hcompletion
  rw [← h.isInitializer, ← h.scope]
  split
  · refine simulates_look fun m m' hm => ?_
    unfold Store.getLocal?
    rcases rel_cases ((hm.frame c.scope.frame).get? "this") with ⟨hv, hv'⟩ | ⟨v, v', hv, hv', hsame⟩
    · rw [hv, hv']
      exact .nil
    · rw [hv, hv']
      exact hsame
  · cases hcompletion with
    | normal => exact .pure .nil
    | returned hv => exact .pure hv

theorem simulates_construct (hrun : w.RunsAlike run) {c c' : Class} (h : c.Alike w.likeness c')
    {vs vs' : List Value} (hvs : List.Forall₂ w.Same vs vs') :
    w.Simulates w.Same (Eval.construct run c vs) (Eval.construct run c' vs') := by
  refine (simulates_newObject h).bind ?_
  rintro object object' ⟨hobject, hthis⟩
  rcases rel_cases (h.method? FunctionDecl.initializerName) with ⟨hi, hi'⟩ | ⟨f, f', hi, hi', hf⟩
  · simp only [Class.initializer?, hi, hi']
    exact .pure hobject
  · simp only [Class.initializer?, hi, hi']
    refine (simulates_bindThis hf hobject hthis).bind ?_
    intro g g' hg
    refine (simulates_apply hrun hg hvs).bind ?_
    intro _ _ _
    exact .pure hobject

theorem simulates_call (hrun : w.RunsAlike run) (hd : w.moves d) {v v' : Value}
    (hv : w.Same v v') (line : Nat) {vs vs' : List Value} (hvs : List.Forall₂ w.Same vs vs') :
    w.Simulates w.Same (Eval.call run v line vs) (Eval.call run v' (d.line line) vs') := by
  refine (simulates_arity? hv).bind ?_
  intro o o' ho
  refine (simulates_require hd line _ ho).bind ?_
  rintro arity - rfl
  refine Simulates.bind (R := Eq) (simulates_look fun m m' hm => hm.depth) ?_
  rintro depth - rfl
  rw [← hvs.length_eq]
  split
  · exact simulates_fail hd line _
  · split
    · exact simulates_fail hd line _
    · refine simulates_counted ?_
      cases hv with
      | native index => exact simulates_native hd index line hvs
      | function id hf => exact simulates_apply hrun hf hvs
      | classValue hc => exact simulates_construct hrun hc hvs
      | _ => exact simulates_fail hd line _

/-! ## Classes -/

theorem simulates_superclass? (hd : w.moves d) {o? : Option Occurrence}
    (h : ∀ o ∈ o?, w.Knows o) :
    w.Simulates (Option.Rel (Class.Alike w.likeness)) (Eval.superclass? o?)
      (Eval.superclass? (o?.map (Occurrence.move d))) := by
  cases o? with
  | none => exact .pure .none
  | some o =>
    refine (simulates_lookUp hd (h o rfl)).bind ?_
    intro v v' hv
    cases hv with
    | classValue hc => exact .pure (.some hc)
    | _ => exact simulates_fail hd o.token.line _

theorem simulates_methodScope {c? c?' : Option Class}
    (h : Option.Rel (Class.Alike w.likeness) c? c?') :
    w.Simulates Eq (Eval.methodScope c?) (Eval.methodScope c?') := by
  refine Simulates.bind (R := Eq) (simulates_look fun m m' hm => hm.scope) ?_
  rintro scope - rfl
  cases h with
  | none => exact .pure rfl
  | some hc =>
    exact simulates_openScope rfl (.cons ⟨rfl, .classValue hc⟩ .nil) (binds_single (w.super _))

/-- Methods are made of their declarations in the scope of their class. -/
theorem sameClosures (hd : w.moves d) (scope : Scope) {methods : List FunctionDecl}
    (h : ∀ m ∈ methods, w.code (.function m)) :
    List.Forall₂ w.SameClosure
      (methods.map fun decl => ⟨decl, scope, decl.isInitializer⟩)
      ((FunctionDecl.moveAll d methods).map fun decl => ⟨decl, scope, decl.isInitializer⟩) := by
  induction methods with
  | nil => exact .nil
  | cons decl methods ih =>
    obtain ⟨hdecl, hrest⟩ := List.forall_mem_cons.1 h
    exact .cons ⟨⟨d, hd, rfl⟩, hdecl, rfl, (FunctionDecl.isInitializer_move decl).symm⟩ (ih hrest)

theorem simulates_makeClass (hd : w.moves d) {name : Token} (hb : w.Binds name.lexeme)
    {c? c?' : Option Class} (hc : Option.Rel (Class.Alike w.likeness) c? c?')
    {methods : List FunctionDecl} (h : ∀ m ∈ methods, w.code (.function m)) :
    w.Simulates Eq (Eval.makeClass name c? methods)
      (Eval.makeClass (name.move d) c?' (FunctionDecl.moveAll d methods)) := by
  refine (simulates_define .nil (hb _)).bind ?_
  rintro - - -
  refine (simulates_methodScope hc).bind ?_
  rintro scope - rfl
  refine simulates_freshId.bind ?_
  rintro id - rfl
  refine simulates_assignClass hd hb (.classValue ⟨⟨rfl, rfl, sameClosures hd scope h⟩, ?_⟩)
  cases hc with
  | none => exact .nil
  | some hc => exact hc.chain

theorem simulates_classDecl (hd : w.moves d) {name : Token} (hb : w.Binds name.lexeme)
    {o? : Option Occurrence} {methods : List FunctionDecl} (ho : ∀ o ∈ o?, w.Knows o)
    (h : ∀ m ∈ methods, w.code (.function m)) :
    w.Simulates Eq (Eval.classDecl name o? methods)
      (Eval.classDecl (name.move d) (o?.map (Occurrence.move d))
        (FunctionDecl.moveAll d methods)) :=
  (simulates_superclass? hd ho).bind fun _ _ hc => simulates_makeClass hd hb hc h

/-! ## Expressions and statements -/

/-- Within a budget, copies are evaluated as their originals. -/
structure InStep (w : Copy) (n : Nat) : Prop where
  expr : ∀ {d : Move} {e : Expr}, w.moves d → w.code (.expr e) →
    w.Simulates w.Same (Eval.expr n e) (Eval.expr n (e.move d))
  exprs : ∀ {d : Move} {es : List Expr}, w.moves d → (∀ e ∈ es, w.code (.expr e)) →
    w.Simulates (List.Forall₂ w.Same) (Eval.exprs n es) (Eval.exprs n (Expr.moveAll d es))
  stmt : ∀ {d : Move} {s : Stmt}, w.moves d → w.code (.stmt s) →
    w.Simulates w.SameCompletion (Eval.stmt n s) (Eval.stmt n (s.move d))
  stmts : w.RunsAlike (Eval.stmts n)
  loop : ∀ {d : Move} {condition : Expr} {body : Stmt}, w.moves d →
    w.code (.stmt (.whileDo condition body)) →
      w.Simulates w.SameCompletion (Eval.loop n condition body)
        (Eval.loop n (condition.move d) (body.move d))

variable {n : Nat}

theorem inStep_zero : w.InStep 0 where
  expr _ _ := simulates_exhausted
  exprs _ _ := simulates_exhausted
  stmt _ _ := simulates_exhausted
  stmts _ _ := simulates_exhausted
  loop _ _ := simulates_exhausted

namespace InStep

variable (ih : w.InStep n) (hd : w.moves d)
include ih hd

theorem expr_succ {e : Expr} (h : w.code (.expr e)) :
    w.Simulates w.Same (Eval.expr (n + 1) e) (Eval.expr (n + 1) (e.move d)) := by
  cases e with simp only [Eval.expr, Expr.move]
  | literal value => exact .pure (Value.ofLiteral_alike value)
  | grouping inner => exact ih.expr hd (w.parts h _ (.head _))
  | unary operator operand =>
    refine (ih.expr hd (w.parts h _ (.head _))).bind ?_
    intro v v' hv
    exact simulates_lift hd operator.line (Operator.unary_alike operator.kind hv)
  | binary left operator right =>
    refine (ih.expr hd (w.parts h _ (.head _))).bind ?_
    intro v v' hv
    refine (ih.expr hd (w.parts h _ (.tail _ (.head _)))).bind ?_
    intro u u' hu
    exact simulates_lift hd operator.line (Operator.binary_alike operator.kind hv hu)
  | logical left operator right =>
    refine (ih.expr hd (w.parts h _ (.head _))).bind ?_
    intro v v' hv
    rw [Token.kind_move, Operator.decides_eq operator.kind hv]
    split
    · exact .pure hv
    · exact ih.expr hd (w.parts h _ (.tail _ (.head _)))
  | var name => exact simulates_lookUp hd (w.agree h name (.head _))
  | assign target value =>
    refine (ih.expr hd (w.parts h _ (.head _))).bind ?_
    intro v v' hv
    refine (simulates_assign hd (w.agree h target (.head _)) (w.named h _ (.head _)) hv).bind ?_
    intro _ _ _
    exact .pure hv
  | call callee close arguments =>
    refine (ih.expr hd (w.parts h _ (.head _))).bind ?_
    intro v v' hv
    have harguments : ∀ e ∈ arguments, w.code (.expr e) := fun e he =>
      w.parts h _ (.tail _ (List.mem_map_of_mem he))
    refine (ih.exprs hd harguments).bind ?_
    intro vs vs' hvs
    exact simulates_call ih.stmts hd hv close.line hvs
  | get object name =>
    refine (ih.expr hd (w.parts h _ (.head _))).bind ?_
    intro v v' hv
    cases hv with
    | object address hc => exact simulates_property hd address hc name
    | _ => exact simulates_fail hd name.line _
  | set object name value =>
    refine (ih.expr hd (w.parts h _ (.head _))).bind ?_
    intro v v' hv
    cases hv with
    | object address hc =>
      refine (ih.expr hd (w.parts h _ (.tail _ (.head _)))).bind ?_
      intro u u' hu
      refine (simulates_setField address name.lexeme hu).bind ?_
      intro _ _ _
      exact .pure hu
    | _ => exact simulates_fail hd name.line _
  | this keyword => exact simulates_lookUp hd (w.agree h keyword (.head _))
  | super keyword method => exact simulates_superMethod hd (w.agree h keyword (.head _)) method

theorem exprs_succ {es : List Expr} (h : ∀ e ∈ es, w.code (.expr e)) :
    w.Simulates (List.Forall₂ w.Same) (Eval.exprs (n + 1) es)
      (Eval.exprs (n + 1) (Expr.moveAll d es)) := by
  cases es with simp only [Eval.exprs, Expr.moveAll]
  | nil => exact .pure .nil
  | cons e rest =>
    obtain ⟨he, hrest⟩ := List.forall_mem_cons.1 h
    refine (ih.expr hd he).bind ?_
    intro v v' hv
    refine (ih.exprs hd hrest).bind ?_
    intro vs vs' hvs
    exact .pure (.cons hv hvs)

theorem stmt_succ {s : Stmt} (h : w.code (.stmt s)) :
    w.Simulates w.SameCompletion (Eval.stmt (n + 1) s) (Eval.stmt (n + 1) (s.move d)) := by
  cases s with try simp only [Eval.stmt, Stmt.move]
  | expression value =>
    refine (ih.expr hd (w.parts h _ (.head _))).bind ?_
    intro _ _ _
    exact .pure .normal
  | print value =>
    refine (ih.expr hd (w.parts h _ (.head _))).bind ?_
    intro v v' hv
    rw [hv.text_eq]
    refine (simulates_printLine hd v'.text).bind ?_
    intro _ _ _
    exact .pure .normal
  | varDecl name initializer =>
    cases initializer with simp only [Eval.stmt, Option.map]
    | some value =>
      refine (ih.expr hd (w.parts h _ (.head _))).bind ?_
      intro v v' hv
      refine (simulates_define hv (w.named h _ (.head _) _)).bind ?_
      intro _ _ _
      exact .pure .normal
    | none =>
      refine (simulates_define .nil (w.named h _ (.head _) _)).bind ?_
      intro _ _ _
      exact .pure .normal
  | block body =>
    refine Simulates.bind (R := Eq) (simulates_look fun m m' hm => hm.scope) ?_
    rintro around - rfl
    refine (simulates_openScope rfl .nil nofun).bind ?_
    rintro scope - rfl
    exact simulates_within rfl (ih.stmts hd fun s hs => w.parts h _ (List.mem_map_of_mem hs))
  | ifThen condition thenBranch =>
    refine (ih.expr hd (w.parts h _ (.head _))).bind ?_
    intro v v' hv
    rw [hv.truthy_eq]
    split
    · exact ih.stmt hd (w.parts h _ (.tail _ (.head _)))
    · exact .pure .normal
  | ifElse condition thenBranch elseBranch =>
    refine (ih.expr hd (w.parts h _ (.head _))).bind ?_
    intro v v' hv
    rw [hv.truthy_eq]
    split
    · exact ih.stmt hd (w.parts h _ (.tail _ (.head _)))
    · exact ih.stmt hd (w.parts h _ (.tail _ (.tail _ (.head _))))
  | whileDo condition body => exact ih.loop hd h
  | funDecl decl =>
    refine Simulates.bind (R := Eq) (simulates_look fun m m' hm => hm.scope) ?_
    rintro scope - rfl
    have hclosure : w.SameClosure ⟨decl, scope, false⟩ ⟨decl.move d, scope, false⟩ :=
      ⟨⟨d, hd, rfl⟩, w.parts h _ (.head _), rfl, rfl⟩
    refine (simulates_function hclosure).bind ?_
    intro v v' hv
    rw [show (decl.move d).name = decl.name.move d by cases decl; rfl]
    refine (simulates_define hv (w.named h _ (.head _) _)).bind ?_
    intro _ _ _
    exact .pure .normal
  | ret keyword value =>
    cases value with simp only [Eval.stmt, Option.map]
    | some value =>
      refine (ih.expr hd (w.parts h _ (.head _))).bind ?_
      intro v v' hv
      exact .pure (.returned hv)
    | none => exact .pure (.returned .nil)
  | classDecl name superclass methods =>
    have hsuperclass : ∀ o ∈ superclass, w.Knows o := fun o ho =>
      w.agree h o (Option.mem_toList.2 ho)
    have hmethods : ∀ m ∈ methods, w.code (.function m) := fun m hm =>
      w.parts h _ (List.mem_map_of_mem hm)
    refine (simulates_classDecl hd (w.named h _ (.head _)) hsuperclass hmethods).bind ?_
    intro _ _ _
    exact .pure .normal

theorem stmts_succ {body : List Stmt} (h : ∀ s ∈ body, w.code (.stmt s)) :
    w.Simulates w.SameCompletion (Eval.stmts (n + 1) body)
      (Eval.stmts (n + 1) (Stmt.moveAll d body)) := by
  cases body with simp only [Eval.stmts, Stmt.moveAll]
  | nil => exact .pure .normal
  | cons s rest =>
    obtain ⟨hs, hrest⟩ := List.forall_mem_cons.1 h
    refine (ih.stmt hd hs).bind ?_
    intro completion completion' hcompletion
    cases hcompletion with
    | normal => exact ih.stmts hd hrest
    | returned hv => exact .pure (.returned hv)

theorem loop_succ {condition : Expr} {body : Stmt}
    (h : w.code (.stmt (.whileDo condition body))) :
    w.Simulates w.SameCompletion (Eval.loop (n + 1) condition body)
      (Eval.loop (n + 1) (condition.move d) (body.move d)) := by
  rw [Eval.loop_succ, Eval.loop_succ]
  refine (ih.expr hd (w.parts h _ (.head _))).bind ?_
  intro v v' hv
  rw [hv.truthy_eq]
  split
  · refine (ih.stmt hd (w.parts h _ (.tail _ (.head _)))).bind ?_
    intro completion completion' hcompletion
    cases hcompletion with
    | normal => exact ih.loop hd h
    | returned hv => exact .pure (.returned hv)
  · exact .pure .normal

end InStep

theorem inStep : ∀ n, w.InStep n
  | 0 => inStep_zero
  | n + 1 =>
    have ih := inStep n
    ⟨fun hd => ih.expr_succ hd, fun hd => ih.exprs_succ hd, fun hd => ih.stmt_succ hd,
      fun hd => ih.stmts_succ hd, fun hd => ih.loop_succ hd⟩

/-- The copy of a program runs as the program itself. -/
theorem simulates_sequence (budget : Nat) (hd : w.moves d) : (statements : List Stmt) →
    (∀ s ∈ statements, w.code (.stmt s)) →
      w.Simulates Eq (Eval.sequence budget statements)
        (Eval.sequence budget (Stmt.moveAll d statements))
  | [], _ => .pure rfl
  | s :: rest, h => by
    obtain ⟨hs, hrest⟩ := List.forall_mem_cons.1 h
    refine ((inStep budget).stmt hd hs).bind ?_
    intro _ _ _
    exact simulates_sequence budget hd rest hrest

end Copy

end LoxLang
