import LoxLang.Proofs.Lookups.Visits
import LoxLang.Proofs.Values.Endings

/-!
# Where evaluation stops

If evaluation stops because a name was not found, or with a fault that no program should meet, then
it came to a part that stopped for the same reason: a lookup, a class, an operator. If it has used
up its budget then it came to a part for which nothing was left. `Visits` leaves none of them out.

1. `blames_program`: where a program has stopped.
-/

namespace LoxLang

namespace RuntimeFault

/-- Is the fault one that no program should meet, whatever it does? -/
def isInternal : RuntimeFault → Bool
  | unboundLocal _ | unboundKeyword _ | unboundClass _ => true
  | invalidUnary | invalidBinary | superOutsideClass | invalidSuper => true
  | _ => false

/-- Is the fault one of those that are traced to where they arise? -/
def isTraced (fault : RuntimeFault) : Bool :=
  fault.isMissingName || fault.isInternal

end RuntimeFault

/-- The task is a lookup, or makes a class, or is an operation, and stops with an error. -/
def Visit.FailsWith (v : Visit) (e : RuntimeError) : Prop :=
  match v.task with
  | .read o => ∃ m, Eval.lookUp o v.machine = .failed (.runtime e) m
  | .write _ target value => ∃ m, Eval.assign target value v.machine = .failed (.runtime e) m
  | .super keyword method => ∃ m, Eval.superMethod keyword method v.machine = .failed (.runtime e) m
  | .makeClass name parent methods =>
    ∃ m, Eval.makeClass name parent methods v.machine = .failed (.runtime e) m
  | .expr _ (.unary operator _) =>
    ∃ value : Value, Operator.unary operator.kind value = .error e.fault
  | .expr _ (.binary _ operator _) =>
    ∃ left right : Value, Operator.binary operator.kind left right = .error e.fault
  | _ => False

/-- Nothing is left of the budget for a part of a program. -/
def Visit.Spent (v : Visit) : Prop :=
  match v.task with
  | .expr _ _ | .exprs _ _ | .stmt _ | .stmts _ | .loop _ _ => v.budget = 0
  | _ => False

/-- If the end is a traced failure then something that `u` came to has failed so, and if it is that
of a used-up budget then `u` came to a part without any. -/
structure Blames {α : Type} (u : Visit) (ending : Outcome α) : Prop where
  failed : ∀ e m, ending = .failed (.runtime e) m → e.fault.isTraced →
    ∃ v, Visits u v ∧ v.FailsWith e
  spent : ∀ m, ending = .exhausted m → ∃ v, Visits u v ∧ v.Spent

namespace Blames

variable {α β : Type} {u v : Visit} {m : Machine}

theorem done (a : α) : Blames u (.done a m) :=
  ⟨nofun, nofun⟩

theorem exhausted (h : u.Spent) : Blames (α := α) u (.exhausted m) :=
  ⟨nofun, fun _ _ => ⟨u, .refl, h⟩⟩

/-- A failure to write or to flush is not traced. -/
theorem output (fault : SinkFault) : Blames (α := α) u (.failed (.output fault) m) :=
  ⟨nofun, nofun⟩

theorem fail (line : Nat) {fault : RuntimeFault} (h : fault.isTraced = false) :
    Blames (α := α) u (Step.fail line fault m) := by
  refine ⟨fun e m' he htraced => ?_, nofun⟩
  injection he with he
  injection he with he
  subst he
  exact absurd (htraced.symm.trans h) nofun

/-- What fails with an error may do so, if it is itself such a part. -/
theorem lift (line : Nat) {r : Except RuntimeFault α}
    (h : ∀ fault, r = .error fault → fault.isTraced → u.FailsWith ⟨line, fault⟩) :
    Blames u (Step.lift line r m) := by
  cases r with
  | ok value => exact done value
  | error fault =>
    refine ⟨fun e m' he htraced => ?_, nofun⟩
    injection he with he
    injection he with he
    subst he
    exact ⟨u, .refl, h fault rfl htraced⟩

theorem bind {first : Eval α} {next : α → Eval β} (h : Blames u (first m))
    (hnext : ∀ a m', first m = .done a m' → Blames u (next a m')) :
    Blames u ((first >>= next) m) := by
  change Blames u (Step.bind first next m)
  unfold Step.bind
  cases hfirst : first m with
  | done a m' => exact hnext a m' hfirst
  | failed f m' =>
    rw [hfirst] at h
    refine ⟨fun e m'' he => ?_, nofun⟩
    injection he with he
    exact h.failed e m' (by rw [he])
  | exhausted m' =>
    rw [hfirst] at h
    exact ⟨nofun, fun _ _ => h.spent m' rfl⟩

theorem require (line : Nat) {fault : RuntimeFault} (h : fault.isTraced = false)
    (o : Option α) : Blames u (Step.require line fault o m) := by
  cases o with
  | none => exact fail line h
  | some value => exact done value

/-- What a visit starts it comes to. -/
theorem start {ending : Outcome α} (hs : Starts u v) (h : Blames v ending) : Blames u ending where
  failed e m he htraced := by
    obtain ⟨t, hv, hf⟩ := h.failed e m he htraced
    exact ⟨t, Relation.ReflTransGen.head hs hv, hf⟩
  spent m he := by
    obtain ⟨t, hv, hspent⟩ := h.spent m he
    exact ⟨t, Relation.ReflTransGen.head hs hv, hspent⟩

theorem mapMachine {ending : Outcome α} (h : Blames u ending) (change : Machine → Machine) :
    Blames u (ending.mapMachine change) := by
  cases ending with
  | done a m => exact done a
  | failed f m =>
    refine ⟨fun e m' he => ?_, nofun⟩
    injection he with he
    exact h.failed e m (by rw [he])
  | exhausted m => exact ⟨nofun, fun _ _ => h.spent m rfl⟩

end Blames

variable {n : Nat} {u : Visit} {m : Machine}

/-! ## Operations that need no budget -/

namespace Eval

variable {α β : Type}

/-- However little is left of the budget, the step does not end for that. -/
def NeedsNone (step : Eval α) : Prop :=
  ∀ m n, step m ≠ .exhausted n

namespace NeedsNone

theorem look (view : Machine → α) : NeedsNone (Step.look view) :=
  nofun

theorem change (change : Machine → Machine) : NeedsNone (Step.change change) :=
  nofun

theorem pure (a : α) : NeedsNone (Pure.pure a : Eval α) :=
  nofun

theorem fail (line : Nat) (fault : RuntimeFault) : NeedsNone (Step.fail line fault : Eval α) :=
  nofun

theorem require (line : Nat) (fault : RuntimeFault) (found : Option α) :
    NeedsNone (Step.require line fault found : Eval α) := by
  cases found <;> exact nofun

theorem bind {first : Eval α} {next : α → Eval β} (h : first.NeedsNone)
    (hnext : ∀ a, (next a).NeedsNone) : NeedsNone (first >>= next) := by
  intro m n
  change Step.bind first next m ≠ .exhausted n
  unfold Step.bind
  cases hrun : first m with
  | done a k => exact hnext a k n
  | failed failure k => exact nofun
  | exhausted k => exact absurd hrun (h m k)

theorem freshId : NeedsNone Eval.freshId :=
  nofun

theorem openScope (around : Scope) (contents : Bindings Value) :
    NeedsNone (Eval.openScope around contents) :=
  nofun

theorem target (o : Occurrence) : NeedsNone (Eval.target o) :=
  (look _).bind fun _ => (look _).bind fun _ => require _ _ _

theorem lookUp (o : Occurrence) : NeedsNone (Eval.lookUp o) :=
  (target o).bind fun _ => (look _).bind fun _ => require _ _ _

theorem assign (o : Occurrence) (value : Value) : NeedsNone (Eval.assign o value) :=
  (target o).bind fun _ => change _

theorem implicit (distance : Nat) (name : String) (line : Nat) :
    NeedsNone (Eval.implicit distance name line) :=
  (look _).bind fun _ => require _ _ _

theorem function (closure : Closure) : NeedsNone (Eval.function closure) :=
  freshId.bind fun _ => pure _

theorem bindThis (method : Closure) (object : Value) : NeedsNone (Eval.bindThis method object) :=
  (openScope _ _).bind fun _ => pure _

theorem superMethod (o : Occurrence) (method : Token) : NeedsNone (Eval.superMethod o method) := by
  refine (look _).bind fun _ => (require _ _ _).bind fun _ => (implicit _ _ _).bind fun _ =>
    (implicit _ _ _).bind fun _ => ?_
  unfold Eval.inherited
  split
  · exact (require _ _ _).bind fun m => (bindThis m _).bind function
  · exact fail _ _

theorem makeClass (name : Token) (parent : Option Class) (methods : List FunctionDecl) :
    NeedsNone (Eval.makeClass name parent methods) := by
  refine (change _).bind fun _ => bind (α := Scope) ?_ fun scope => freshId.bind fun _ =>
    (look _).bind fun _ => (require _ _ _).bind fun _ => change _
  refine (look _).bind fun scope => ?_
  cases parent with
  | none => exact pure scope
  | some parent => exact openScope scope _

end NeedsNone

end Eval

/-! ## The operations that are no lookups -/

theorem blames_function (c : Closure) : Blames u (Eval.function c m) :=
  .done _

theorem blames_bindThis (c : Closure) (v : Value) : Blames u (Eval.bindThis c v m) :=
  .done _

theorem blames_method (c : Closure) (v : Value) :
    Blames u ((do Eval.function (← Eval.bindThis c v) : Eval Value) m) :=
  .bind (blames_bindThis c v) fun f _ _ => blames_function f

theorem blames_property (address : Nat) (c : Class) (name : Token) :
    Blames u (Eval.property address c name m) := by
  refine .bind (.done _) fun v m₁ _ => ?_
  cases v with
  | some value => exact .done value
  | none => exact .bind (.require _ rfl _) fun f _ _ => blames_method f _

theorem blames_native (index line : Nat) (arguments : List Value) :
    Blames u (Eval.native index line arguments m) := by
  refine .bind (.done _) fun body m₁ _ => ?_
  rcases body with _ | _ | run
  · exact .fail line rfl
  · exact .done _
  · refine .lift line fun fault h htraced => ?_
    cases hr : run arguments with
    | ok v =>
      rw [hr] at h
      exact nomatch h
    | error message =>
      rw [hr] at h
      injection h with h
      subst h
      exact Bool.noConfusion htraced

/-! ## Within a budget -/

/-- Within a budget, each part of a program is accountable for how it stops. -/
structure Accountable (n : Nat) : Prop where
  expr : ∀ x e m, Blames ⟨n, .expr x e, m⟩ (Eval.expr n e m)
  exprs : ∀ x es m, Blames ⟨n, .exprs x es, m⟩ (Eval.exprs n es m)
  stmt : ∀ s m, Blames ⟨n, .stmt s, m⟩ (Eval.stmt n s m)
  stmts : ∀ body m, Blames ⟨n, .stmts body, m⟩ (Eval.stmts n body m)
  loop : ∀ condition body m, Blames ⟨n, .loop condition body, m⟩ (Eval.loop n condition body m)

theorem accountable_zero : Accountable 0 where
  expr _ _ _ := .exhausted rfl
  exprs _ _ _ := .exhausted rfl
  stmt _ _ := .exhausted rfl
  stmts _ _ := .exhausted rfl
  loop _ _ _ := .exhausted rfl

theorem blames_read (o : Occurrence) (m : Machine) :
    Blames ⟨n, .read o, m⟩ (Eval.lookUp o m) :=
  ⟨fun _ m' he _ => ⟨_, .refl, m', he⟩, fun k he => absurd he (Eval.NeedsNone.lookUp o m k)⟩

theorem blames_write (x : Option String) (target : Occurrence) (v : Value) (m : Machine) :
    Blames ⟨n, .write x target v, m⟩ (Eval.assign target v m) :=
  ⟨fun _ m' he _ => ⟨_, .refl, m', he⟩, fun k he => absurd he (Eval.NeedsNone.assign target v m k)⟩

theorem blames_super (keyword : Occurrence) (method : Token) (m : Machine) :
    Blames ⟨n, .super keyword method, m⟩ (Eval.superMethod keyword method m) :=
  ⟨fun _ m' he _ => ⟨_, .refl, m', he⟩,
    fun k he => absurd he (Eval.NeedsNone.superMethod keyword method m k)⟩

theorem blames_makeClass (name : Token) (parent : Option Class) (methods : List FunctionDecl)
    (m : Machine) :
    Blames ⟨n, .makeClass name parent methods, m⟩ (Eval.makeClass name parent methods m) :=
  ⟨fun _ m' he _ => ⟨_, .refl, m', he⟩,
    fun k he => absurd he (Eval.NeedsNone.makeClass name parent methods m k)⟩

/-- Asking how many arguments a value takes never fails. -/
theorem arity?_run (callee : Value) (m : Machine) :
    ∃ o, Eval.arity? callee m = .done o m ∧
      (∀ id closure, callee = .function id closure → o = some closure.arity) ∧
      ∀ c, callee = .classValue c → o = some c.arity := by
  cases callee with
  | function id closure => exact ⟨_, rfl, fun _ _ h => by injection h with _ h; rw [h], nofun⟩
  | classValue c => exact ⟨_, rfl, nofun, fun _ h => by injection h with h; rw [h]⟩
  | _ => exact ⟨_, rfl, nofun, nofun⟩

namespace Accountable

theorem apply (ih : Accountable n) (c : Closure) (arguments : List Value) (m : Machine) :
    Blames ⟨n, .apply c arguments, m⟩ (Eval.apply (Eval.stmts n) c arguments m) := by
  refine .bind (.done _) fun scope m₁ hopen => ?_
  refine .bind (.start (.apply hopen) ((ih.stmts _ _).mapMachine _)) fun completion m₂ _ => ?_
  split
  · exact .done _
  · cases completion <;> exact .done _

theorem construct (ih : Accountable n) (c : Class) (arguments : List Value) (m : Machine) :
    Blames ⟨n, .construct c arguments, m⟩ (Eval.construct (Eval.stmts n) c arguments m) := by
  refine .bind (.done _) fun object m₁ hnew => ?_
  cases hi : c.initializer? with
  | none => exact .done _
  | some initializer =>
    refine .bind (blames_bindThis initializer object) fun closure m₂ hbind => ?_
    exact .bind (.start (.construct hnew hi hbind) (ih.apply _ _ _)) fun _ _ _ => .done _

theorem call (ih : Accountable n) (callee : Value) (line : Nat) (arguments : List Value)
    (m : Machine) :
    Blames ⟨n, .call callee line arguments, m⟩
      (Eval.call (Eval.stmts n) callee line arguments m) := by
  obtain ⟨o, ho, hfunction, hclass⟩ := arity?_run callee m
  unfold Eval.call
  rw [Step.bind_of_done ho]
  cases o with
  | none => exact .fail line rfl
  | some k =>
    rw [Step.bind_of_done (show Step.require line _ (some k) m = .done k m from rfl),
      Step.bind_of_done (show Step.look Machine.depth m = .done m.depth m from rfl)]
    split
    · exact .fail line rfl
    · next hlength =>
      split
      · exact .fail line rfl
      · next hdepth =>
        have hlength : arguments.length = k := Decidable.of_not_not hlength
        have hlt := Nat.lt_of_not_le hdepth
        refine Blames.mapMachine ?_ _
        cases callee with
        | native index => exact blames_native index line arguments
        | function id closure =>
          have hk := Option.some.inj (hfunction id closure rfl)
          exact .start (.callFunction (hlength.trans hk) hlt) (ih.apply _ _ _)
        | classValue c =>
          have hk := Option.some.inj (hclass c rfl)
          exact .start (.callClass (hlength.trans hk) hlt) (ih.construct _ _ _)
        | _ => exact .fail line rfl

theorem expr_succ (ih : Accountable n) (x : Option String) (e : Expr) (m : Machine) :
    Blames ⟨n + 1, .expr x e, m⟩ (Eval.expr (n + 1) e m) := by
  cases e with simp only [Eval.expr]
  | literal value => exact .done _
  | grouping inner => exact .start .grouping (ih.expr x inner m)
  | unary operator operand =>
    refine .bind (.start .unary (ih.expr x operand m)) fun v m₁ _ => ?_
    exact .lift _ fun fault hfault _ => ⟨v, hfault⟩
  | binary left operator right =>
    refine .bind (.start .binaryLeft (ih.expr x left m)) fun v m₁ hl => ?_
    refine .bind (.start (.binaryRight hl) (ih.expr x right m₁)) fun v' m₂ _ => ?_
    exact .lift _ fun fault hfault _ => ⟨v, v', hfault⟩
  | logical left operator right =>
    refine .bind (.start .logicalLeft (ih.expr x left m)) fun v m₁ hl => ?_
    split
    · exact .done _
    · next hd => exact .start (.logicalRight hl (by simpa using hd)) (ih.expr x right m₁)
  | var name => exact .start .var (blames_read name m)
  | assign target value =>
    refine .bind (.start .assignValue (ih.expr x value m)) fun v m₁ hv => ?_
    exact .bind (.start (.assignTarget hv) (blames_write x target v m₁)) fun _ _ _ => .done _
  | call callee close arguments =>
    refine .bind (.start .callee (ih.expr x callee m)) fun v m₁ hv => ?_
    refine .bind (.start (.arguments hv) (ih.exprs x arguments m₁)) fun vs m₂ hvs => ?_
    exact .start (.call hv hvs) (ih.call v close.line vs m₂)
  | get object name =>
    refine .bind (.start .getObject (ih.expr x object m)) fun v m₁ _ => ?_
    cases v with
    | object address c => exact blames_property address c name
    | _ => exact .fail _ rfl
  | set object name value =>
    refine .bind (.start .setObject (ih.expr x object m)) fun v m₁ ho => ?_
    cases v with
    | object address c =>
      refine .bind (.start (.setValue ho) (ih.expr x value m₁)) fun u m₂ _ => ?_
      exact .bind (.done _) fun _ _ _ => .done _
    | _ => exact .fail _ rfl
  | this keyword => exact .start .this (blames_read keyword m)
  | super keyword method => exact .start .super (blames_super keyword method m)

theorem exprs_succ (ih : Accountable n) (x : Option String) (es : List Expr) (m : Machine) :
    Blames ⟨n + 1, .exprs x es, m⟩ (Eval.exprs (n + 1) es m) := by
  cases es with simp only [Eval.exprs]
  | nil => exact .done _
  | cons e rest =>
    refine .bind (.start .first (ih.expr x e m)) fun v m₁ hv => ?_
    exact .bind (.start (.others hv) (ih.exprs x rest m₁)) fun _ _ _ => .done _

theorem classDecl_succ (name : Token) (superclass : Option Occurrence)
    (methods : List FunctionDecl) (m : Machine) :
    Blames ⟨n + 1, .stmt (.classDecl name superclass methods), m⟩
      (Eval.classDecl name superclass methods m) := by
  refine .bind ?_ fun parent m₁ hparent =>
    .start (.classDecl hparent) (blames_makeClass name parent methods m₁)
  cases superclass with
  | none => exact .done _
  | some o =>
    refine .bind (.start .superclass (blames_read o m)) fun v m₁ _ => ?_
    cases v with
    | classValue c => exact .done _
    | _ => exact .fail _ rfl

theorem stmt_succ (ih : Accountable n) (s : Stmt) (m : Machine) :
    Blames ⟨n + 1, .stmt s, m⟩ (Eval.stmt (n + 1) s m) := by
  cases s with try simp only [Eval.stmt]
  | expression value =>
    exact .bind (.start .expression (ih.expr none value m)) fun _ _ _ => .done _
  | print value =>
    refine .bind (.start .print (ih.expr none value m)) fun v m₁ _ => ?_
    refine .bind ?_ fun _ _ _ => .done _
    unfold Eval.printLine
    split
    · exact .done _
    · exact .output _
  | varDecl name initializer =>
    cases initializer with simp only [Eval.stmt]
    | none => exact .bind (.done _) fun _ _ _ => .done _
    | some value =>
      refine .bind (.start .initializer (ih.expr (some name.lexeme) value m)) fun v m₁ _ => ?_
      exact .bind (.done _) fun _ _ _ => .done _
  | block body =>
    refine .bind (.done _) fun around m₁ haround => ?_
    obtain ⟨rfl, rfl⟩ : m.scope = around ∧ m = m₁ := by simpa [Step.look] using haround
    refine .bind (.done _) fun scope m₂ hopen => ?_
    exact .start (.block hopen) ((ih.stmts _ _).mapMachine _)
  | ifThen condition thenBranch =>
    refine .bind (.start .ifThenCondition (ih.expr none condition m)) fun v m₁ hv => ?_
    split
    · next ht => exact .start (.ifThenBranch hv ht) (ih.stmt thenBranch m₁)
    · exact .done _
  | ifElse condition thenBranch elseBranch =>
    refine .bind (.start .ifElseCondition (ih.expr none condition m)) fun v m₁ hv => ?_
    split
    · next ht => exact .start (.ifElseThen hv ht) (ih.stmt thenBranch m₁)
    · next ht => exact .start (.ifElseElse hv (by simpa using ht)) (ih.stmt elseBranch m₁)
  | whileDo condition body => exact .start .whileDo (ih.loop condition body m)
  | funDecl decl =>
    refine .bind (.done _) fun scope m₁ _ => ?_
    refine .bind (blames_function _) fun v m₂ _ => ?_
    exact .bind (.done _) fun _ _ _ => .done _
  | ret keyword value =>
    cases value with simp only [Eval.stmt]
    | none => exact .done _
    | some value => exact .bind (.start .ret (ih.expr none value m)) fun _ _ _ => .done _
  | classDecl name superclass methods =>
    exact .bind (classDecl_succ name superclass methods m) fun _ _ _ => .done _

theorem stmts_succ (ih : Accountable n) (body : List Stmt) (m : Machine) :
    Blames ⟨n + 1, .stmts body, m⟩ (Eval.stmts (n + 1) body m) := by
  cases body with simp only [Eval.stmts]
  | nil => exact .done _
  | cons s rest =>
    refine .bind (.start .head (ih.stmt s m)) fun completion m₁ hs => ?_
    cases completion with
    | normal => exact .start (.tail hs) (ih.stmts rest m₁)
    | returned v => exact .done _

theorem loop_succ (ih : Accountable n) (condition : Expr) (body : Stmt) (m : Machine) :
    Blames ⟨n + 1, .loop condition body, m⟩ (Eval.loop (n + 1) condition body m) := by
  rw [Eval.loop_succ]
  refine .bind (.start .loopCondition (ih.expr none condition m)) fun v m₁ hv => ?_
  split
  · next ht =>
    refine .bind (.start (.loopBody hv ht) (ih.stmt body m₁)) fun completion m₂ hs => ?_
    cases completion with
    | normal => exact .start (.loopAgain hv ht hs) (ih.loop condition body m₂)
    | returned v => exact .done _
  · exact .done _

end Accountable

theorem accountable : ∀ n, Accountable n
  | 0 => accountable_zero
  | n + 1 =>
    have ih := accountable n
    ⟨ih.expr_succ, ih.exprs_succ, ih.stmt_succ, ih.stmts_succ, ih.loop_succ⟩

/-- If a program stops with a traced failure, or for its budget, then it has come to a part that
did. -/
theorem blames_program (budget : Nat) : (statements : List Stmt) → (m : Machine) →
    Blames ⟨budget, .program statements, m⟩ (Eval.program budget statements m)
  | [], m => by
    unfold Eval.program Eval.flush
    split
    · exact .done _
    · exact .output _
  | s :: rest, m =>
    .bind (.start .programHead ((accountable budget).stmt s m)) fun _ m₁ hs =>
      .start (.programTail hs) (blames_program budget rest m₁)

end LoxLang
