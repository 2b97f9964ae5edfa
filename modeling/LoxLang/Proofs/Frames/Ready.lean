import LoxLang.Proofs.Calls.Progress
import LoxLang.Proofs.Frames.Steps
import LoxLang.Proofs.Locations.Classes

/-!
# Tasks in their frames

A piece of code is evaluated in frames that are those around it in the program. If this holds of a
task then it holds of all that the task starts: in its own frames, in that of a block, or in those
of a function that it calls.

1. `Chronicle.Ready.body`, `Chronicle.Ready.block`: where code begins in a new frame.
2. `Chronicle.Ready.starts`: what a task starts.
-/

namespace LoxLang

namespace Chronicle

open Step

/-- The code of a task belongs in these frames, and its values are known. -/
def Fits (w : Chronicle) (chain : List Nat) (around : Surroundings) : Task → Prop
  | .expr _ e => (∃ pending, e.Scoped w.knowledge around pending) ∧ w.Inside chain (.expr e)
  | .exprs _ es => (∃ pending, Expr.AllScoped w.knowledge around pending es) ∧
      ∀ e ∈ es, w.Inside chain (.expr e)
  | .stmt s => s.Scoped w.knowledge around ∧ w.Inside chain (.stmt s)
  | .stmts body => Stmt.AllScoped w.knowledge around body ∧ ∀ s ∈ body, w.Inside chain (.stmt s)
  | .loop condition body => (Stmt.whileDo condition body).Scoped w.knowledge around ∧
      w.Inside chain (.stmt (.whileDo condition body))
  | .program statements => Stmt.AllScoped w.knowledge around statements ∧
      ∀ s ∈ statements, w.Inside chain (.stmt s)
  | .read _ => True
  | .write _ _ value => w.Good value
  | .super keyword method =>
      (∃ pending, (Expr.super keyword method).Scoped w.knowledge around pending) ∧
        w.Inside chain (.expr (.super keyword method))
  | .call callee _ arguments => w.Good callee ∧ ∀ v ∈ arguments, w.Good v
  | .apply closure arguments => w.Function closure ∧ ∀ v ∈ arguments, w.Good v
  | .construct c arguments => w.Pedigree c ∧ ∀ v ∈ arguments, w.Good v
  | .makeClass name parent methods => IsName name.lexeme ∧ (∀ c ∈ parent, w.Pedigree c) ∧
      FunctionDecl.AllScoped w.knowledge
        (["this"] :: ((around.declare name.lexeme).inherit parent)) methods ∧
      ∀ m ∈ methods, w.Inside chain (.function m)

/-- A visit begins on a machine that is as the chronicle says, in the frames around its code, and
the chronicle tells of all that the visit comes to. -/
structure Ready (w : Chronicle) (around : Surroundings) (u : Visit) : Prop where
  machine : w.Holds u.machine
  seats : w.Seats u.machine.scope.chain around
  past : ∀ v, Visits u v → w.past v
  fits : w.Fits u.machine.scope.chain around u.task

variable {w w' : Chronicle} {around : Surroundings} {n : Nat} {m : Machine}

theorem Fits.mono (hw : w.Le w') {chain : List Nat} {task : Task}
    (h : w.Fits chain around task) : w'.Fits chain around task := by
  have hk := hw.knowledge
  cases task with
  | expr x e =>
    obtain ⟨⟨pending, hscoped⟩, hinside⟩ := h
    exact ⟨⟨pending, hscoped.extend hk _⟩, hinside.mono hw⟩
  | exprs x es =>
    obtain ⟨⟨pending, hscoped⟩, hinside⟩ := h
    exact ⟨⟨pending, hscoped.extend hk _⟩, fun e he => (hinside e he).mono hw⟩
  | stmt s => exact ⟨h.1.extend hk _, h.2.mono hw⟩
  | stmts body => exact ⟨h.1.extend hk _, fun s hs => (h.2 s hs).mono hw⟩
  | loop condition body => exact ⟨h.1.extend hk _, h.2.mono hw⟩
  | program statements => exact ⟨h.1.extend hk _, fun s hs => (h.2 s hs).mono hw⟩
  | read o => trivial
  | write x target value => exact Good.mono hw h
  | super keyword method =>
    obtain ⟨⟨pending, hscoped⟩, hinside⟩ := h
    exact ⟨⟨pending, hscoped.extend hk _⟩, hinside.mono hw⟩
  | call callee line arguments => exact ⟨h.1.mono hw, fun v hv => (h.2 v hv).mono hw⟩
  | apply closure arguments => exact ⟨h.1.mono hw, fun v hv => (h.2 v hv).mono hw⟩
  | construct c arguments => exact ⟨h.1.mono hw, fun v hv => (h.2 v hv).mono hw⟩
  | makeClass name parent methods =>
    obtain ⟨hname, hparent, hscoped, hinside⟩ := h
    exact ⟨hname, fun c hc => (hparent c hc).mono hw, hscoped.extend hk _,
      fun m hm => (hinside m hm).mono hw⟩

/-- What a visit starts in its own scope is ready if its code belongs there. -/
theorem Ready.nextIn {u v : Visit} {around' : Surroundings} (h : w.Ready around u)
    (hs : Starts u v) (hw : w.Le w') (hm : w'.Holds v.machine)
    (hscope : v.machine.scope = u.machine.scope)
    (hseats : w'.Seats u.machine.scope.chain around')
    (hfits : w'.Fits u.machine.scope.chain around' v.task) : w'.Ready around' v where
  machine := hm
  seats := hscope ▸ hseats
  past := fun x hx => hw.past.1 (h.past x (.head hs hx))
  fits := hscope ▸ hfits

theorem Ready.next {u v : Visit} (h : w.Ready around u) (hs : Starts u v) (hw : w.Le w')
    (hm : w'.Holds v.machine) (hscope : v.machine.scope = u.machine.scope)
    (hfits : w'.Fits u.machine.scope.chain around v.task) : w'.Ready around v :=
  h.nextIn hs hw hm hscope (h.seats.mono hw) hfits

/-- What a visit starts at once. -/
theorem Ready.first {u v : Visit} (h : w.Ready around u) (hs : Starts u v)
    (hm : v.machine = u.machine) (hfits : w.Fits u.machine.scope.chain around v.task) :
    w.Ready around v :=
  h.next hs (.refl w) (hm ▸ h.machine) (congrArg Machine.scope hm) hfits

theorem scope_of_done {α : Type} {step : Eval α} (h : step.Restores) {k : Machine} {a : α}
    (hrun : step m = .done a k) : k.scope = m.scope := by
  have hscope := (h m).scope
  rwa [hrun] at hscope

/-- A completion with a value of which the chronicle tells, if it has one. -/
def Completes (w : Chronicle) : Completion → Prop
  | .normal => True
  | .returned value => w.Good value

/-- Within a budget, all that is evaluated keeps to the chronicle. -/
structure Keeping (n : Nat) : Prop where
  expr : ∀ {w : Chronicle} {around : Surroundings} {x : Option String} {e : Expr} {m : Machine},
    w.Ready around ⟨n, .expr x e, m⟩ → w.Leaves Good (Eval.expr n e m)
  exprs : ∀ {w : Chronicle} {around : Surroundings} {x : Option String} {es : List Expr}
    {m : Machine}, w.Ready around ⟨n, .exprs x es, m⟩ →
      w.Leaves (fun w' vs => ∀ v ∈ vs, w'.Good v) (Eval.exprs n es m)
  stmt : ∀ {w : Chronicle} {around : Surroundings} {s : Stmt} {m : Machine},
    w.Ready around ⟨n, .stmt s, m⟩ → w.Leaves Completes (Eval.stmt n s m)
  stmts : ∀ {w : Chronicle} {around : Surroundings} {body : List Stmt} {m : Machine},
    w.Ready around ⟨n, .stmts body, m⟩ → w.Leaves Completes (Eval.stmts n body m)
  loop : ∀ {w : Chronicle} {around : Surroundings} {condition : Expr} {body : Stmt} {m : Machine},
    w.Ready around ⟨n, .loop condition body, m⟩ →
      w.Leaves Completes (Eval.loop n condition body m)

/-! ## New frames -/

/-- The frame of a call. -/
theorem opens_call {closure : Closure} {arguments : List Value}
    (harguments : ∀ v ∈ arguments, w.Good v) (hparams : ∀ p ∈ closure.decl.params, IsName p.lexeme)
    (hpast : w.past ⟨n, .apply closure arguments, m⟩) :
    w.Opens m (.call closure (m.store.getLocal? closure.scope "this")) closure.scope.chain
      (closure.contents arguments) := by
  have hname {x : String} {v : Value}
      (hv : Bindings.get? (closure.contents arguments) x = some v) : IsName x := by
    obtain ⟨p, hp, rfl⟩ := List.mem_map.1 (Closure.mem_of_get?_contents hv).1
    exact hparams p hp
  refine ⟨fun hv => harguments _ (Closure.mem_of_get?_contents hv).2, nofun, nofun,
    fun hv => absurd rfl (hname hv).ne_this, fun hv => absurd rfl (hname hv).ne_super, ?_, nofun⟩
  rintro _ _ ⟨rfl, rfl⟩
  exact ⟨rfl, _, arguments, hpast, rfl, rfl, rfl⟩

theorem body_of_scoped {decl : FunctionDecl} {k : Knowledge} (h : decl.Scoped k around) :
    (∀ p ∈ decl.params, IsName p.lexeme) ∧
      Stmt.AllScoped k (decl.params.map Token.lexeme :: around) decl.body := by
  obtain ⟨name, params, body⟩ := decl
  exact h.2

/-- In the frame of a call, the body of the function is in the frames around it. -/
theorem Function.body {closure : Closure} (hf : w.Function closure) (hm : w.Holds m)
    (hw : w.Le w') {i : Nat}
    (hi : w'.Made i (.call closure (m.store.getLocal? closure.scope "this"))
      closure.scope.chain) :
    ∃ around, w'.Seats (i :: closure.scope.chain) around ∧
      Stmt.AllScoped w'.knowledge around closure.decl.body ∧
      ∀ s ∈ closure.decl.body, w'.Inside (i :: closure.scope.chain) (.stmt s) := by
  have hnames {params : List Token} (h : ∀ p ∈ params, IsName p.lexeme) :
      ∀ x ∈ params.map Token.lexeme, IsName x := by
    simpa using h
  cases hf with
  | @plain _ around hinit hseats hscoped hinside =>
    obtain ⟨hparams, hbody⟩ := body_of_scoped (hscoped.extend hw.knowledge _)
    refine ⟨_, .function hi (hnames hparams) (hseats.mono hw), hbody, fun s hs => ?_⟩
    exact ((hinside.mono hw).call hi).part (List.mem_map_of_mem hs)
  | @bound f t address c hmethod ht =>
    obtain ⟨-, around, hdeclares, hscoped, hinside⟩ := hmethod.mono hw.toBefore
    obtain ⟨hparams, hbody⟩ := body_of_scoped hscoped
    have hthis : m.store.getLocal? ⟨t, f.scope.chain⟩ "this" = some (.object address c) :=
      hm.receivers ht
    rw [hthis] at hi
    have ht := ht.mono hw.toBefore
    let g : Closure := { f with scope := ⟨t, f.scope.chain⟩ }
    have hi : w'.Made i (.call g (some (.object address c))) (t :: f.scope.chain) := hi
    have hdecl : g.decl = f.decl := rfl
    refine ⟨_, hdeclares.call hdecl hi ht (hnames hparams), hbody, fun s hs => ?_⟩
    have hinside : w'.Inside (t :: f.scope.chain) (.function g.decl) := hinside.cons ht nofun
    exact (hinside.call hi).part (List.mem_map_of_mem hs)

theorem Function.params {closure : Closure} (hf : w.Function closure) :
    ∀ p ∈ closure.decl.params, IsName p.lexeme := by
  cases hf with
  | plain _ _ hscoped _ => exact (body_of_scoped hscoped).1
  | bound hmethod _ =>
    obtain ⟨-, around, -, hscoped, -⟩ := hmethod
    exact (body_of_scoped hscoped).1

/-- The body of a function is ready in a new frame. -/
theorem Ready.body {closure : Closure} {arguments : List Value}
    (h : w.Ready around ⟨n, .apply closure arguments, m⟩) {scope : Scope} {k : Machine}
    (hrun : Eval.openScope closure.scope (closure.contents arguments) m = .done scope k) :
    ∃ w' around', w.Le w' ∧
      w'.Ready around' ⟨n, .stmts closure.decl.body, { k with scope := scope }⟩ := by
  obtain ⟨hf, harguments⟩ := h.fits
  have hstarts : Starts ⟨n, .apply closure arguments, m⟩ _ := .apply hrun
  injection hrun with hscope hk
  subst hscope hk
  let this := m.store.getLocal? closure.scope "this"
  have hw := w.le_push (.call closure this) closure.scope.chain
  have hopens := opens_call harguments hf.params (h.past _ .refl)
  have hk := h.machine.push hopens
  obtain ⟨around', hseats, hscoped, hinside⟩ :=
    hf.body h.machine hw (made_push h.machine (.call closure this) closure.scope.chain)
  exact ⟨_, around', hw, { hk with }, hseats,
    fun v hv => hw.past.1 (h.past v (.head hstarts hv)), hscoped, hinside⟩

/-- The initializer of a new object is ready to run. -/
theorem Ready.initializer {c : Class} {arguments : List Value}
    (h : w.Ready around ⟨n, .construct c arguments, m⟩) {object : Value} {initializer g : Closure}
    {m₁ m₂ : Machine} (hnew : Eval.newObject c m = .done object m₁)
    (hinitializer : c.initializer? = some initializer)
    (hbind : Eval.bindThis initializer object m₁ = .done g m₂) :
    ∃ w', w.Le w' ∧ w'.Good object ∧ w'.Ready around ⟨n, .apply g arguments, m₂⟩ := by
  obtain ⟨hc, harguments⟩ := h.fits
  have hfirst := leaves_newObject h.machine hc
  rw [hnew] at hfirst
  obtain ⟨w₁, hw₁, hm₁, rfl, hobject⟩ := hfirst
  have hmethod : w₁.Method initializer := (hc.mono hw₁).method hinitializer
  have hsecond := leaves_bindThis hm₁ hmethod hobject
  rw [hbind] at hsecond
  obtain ⟨w₂, hw₂, hm₂, hg, -⟩ := hsecond
  have hscope : m₂.scope = m.scope :=
    (scope_of_done (.bindThis initializer _) hbind).trans (scope_of_done (.newObject c) hnew)
  have hw := hw₁.trans hw₂
  exact ⟨w₂, hw, hobject.mono hw₂, h.next (.construct hnew hinitializer hbind) hw hm₂ hscope
    ⟨hg, fun v hv => (harguments v hv).mono hw⟩⟩

/-- The statements of a block are in a new frame. -/
theorem Ready.block {body : List Stmt} {k : Nat} {t : Task} {scope : Scope} {m₁ : Machine}
    (h : w.Ready around ⟨k, t, m⟩) (hscoped : Stmt.AllScoped w.knowledge ([] :: around) body)
    (hinside : ∀ s ∈ body, w.Inside m.scope.chain (.stmt s))
    (hs : Starts ⟨k, t, m⟩ ⟨n, .stmts body, { m₁ with scope := scope }⟩)
    (hrun : Eval.openScope m.scope [] m = .done scope m₁) :
    ∃ w', w.Le w' ∧ w'.Ready ([] :: around) ⟨n, .stmts body, { m₁ with scope := scope }⟩ := by
  injection hrun with hscope hm
  subst hscope hm
  have hopens : w.Opens m .block m.scope.chain [] :=
    ⟨nofun, nofun, nofun, nofun, nofun, nofun, nofun⟩
  have hw := w.le_push .block m.scope.chain
  have hmade := made_push h.machine .block m.scope.chain
  refine ⟨_, hw, { h.machine.push hopens with }, .block hmade nofun (h.seats.mono hw),
    fun v hv => hw.past.1 (h.past v (.head hs hv)), hscoped.extend hw.knowledge _, fun s hs => ?_⟩
  exact ((hinside s hs).mono hw).cons hmade nofun

theorem leaves_superclass? (hm : w.Holds m) (superclass : Option Occurrence) :
    w.Leaves (fun w' parent => (∀ c ∈ parent, w'.Pedigree c) ∧ parent.isSome = superclass.isSome)
      (Eval.superclass? superclass m) := by
  cases superclass with
  | none => exact .pure hm ⟨nofun, rfl⟩
  | some o =>
    refine (leaves_lookUp hm o).bind ?_
    intro value k w' _ _ hk hvalue
    cases value with
    | classValue c =>
      refine .pure hk ⟨fun d hd => ?_, rfl⟩
      exact Option.some.inj hd ▸ hvalue
    | _ => exact .fail hk _ _

/-! ## What a task starts -/

/-- What starts after an expression. -/
theorem Ready.afterExpr {u : Visit} {x : Option String} {e : Expr} {v : Value} {t : Task}
    {m₁ : Machine} (h : w.Ready around u) (ih : Keeping n) (hs : Starts u ⟨n, t, m₁⟩)
    (hfirst : Starts u ⟨n, .expr x e, u.machine⟩)
    (he : w.Fits u.machine.scope.chain around (.expr x e))
    (hrun : Eval.expr n e u.machine = .done v m₁)
    (hfits : ∀ {w'}, w.Le w' → w'.Good v → w'.Fits u.machine.scope.chain around t) :
    ∃ w' around', w.Le w' ∧ w'.Ready around' ⟨n, t, m₁⟩ := by
  obtain ⟨w₁, hw, hm, hv⟩ := (ih.expr (h.first hfirst rfl he)).of_done hrun
  have hscope := scope_of_done ((Eval.restoring n).expr e) hrun
  exact ⟨w₁, around, hw, h.next hs hw hm hscope (hfits hw hv)⟩

/-- What starts after a statement. -/
theorem Ready.afterStmt {u : Visit} {s : Stmt} {completion : Completion} {t : Task} {m₁ : Machine}
    (h : w.Ready around u) (ih : Keeping n) (hs : Starts u ⟨n, t, m₁⟩)
    (hfirst : Starts u ⟨n, .stmt s, u.machine⟩)
    (hstmt : w.Fits u.machine.scope.chain around (.stmt s))
    (hrun : Eval.stmt n s u.machine = .done completion m₁)
    (hfits : w.Fits u.machine.scope.chain (s.after around) t) :
    ∃ w' around', w.Le w' ∧ w'.Ready around' ⟨n, t, m₁⟩ := by
  obtain ⟨w₁, hw, hm, -⟩ := (ih.stmt (h.first hfirst rfl hstmt)).of_done hrun
  have hscope := scope_of_done ((Eval.restoring n).stmt s) hrun
  have hseats := (h.seats.after hstmt.1).mono hw.toBefore
  exact ⟨w₁, _, hw, h.nextIn hs hw hm hscope hseats (hfits.mono hw)⟩

/-- All that a task starts is in frames that are those around it, if what runs before it keeps to
the chronicle. -/
theorem Ready.starts {u v : Visit} (h : w.Ready around u) (hs : Starts u v)
    (ih : Keeping v.budget) : ∃ w' around', w.Le w' ∧ w'.Ready around' v := by
  have hfits := h.fits
  have hstarts := hs
  have here {v : Visit} (hs : Starts u v) (hm : v.machine = u.machine)
      (hfits : w.Fits u.machine.scope.chain around v.task) :
      ∃ w' around', w.Le w' ∧ w'.Ready around' v :=
    ⟨w, around, .refl w, h.first hs hm hfits⟩
  cases hs with
  | grouping | unary | getObject => exact here hstarts rfl ⟨hfits.1, hfits.2.part (.head _)⟩
  | binaryLeft | logicalLeft | assignValue | callee | setObject =>
    obtain ⟨⟨pending, hscoped⟩, hinside⟩ := hfits
    exact here hstarts rfl ⟨⟨pending, hscoped.1⟩, hinside.part (.head _)⟩
  | binaryRight hrun =>
    obtain ⟨⟨pending, hleft, hright⟩, hinside⟩ := hfits
    refine h.afterExpr ih hstarts .binaryLeft ⟨⟨_, hleft⟩, hinside.part (.head _)⟩ hrun ?_
    intro w' hw _
    exact Fits.mono hw ⟨⟨_, hright⟩, hinside.part (.tail _ (.head _))⟩
  | logicalRight hrun _ =>
    obtain ⟨⟨pending, hleft, hright⟩, hinside⟩ := hfits
    refine h.afterExpr ih hstarts .logicalLeft ⟨⟨_, hleft⟩, hinside.part (.head _)⟩ hrun ?_
    intro w' hw _
    exact Fits.mono hw ⟨⟨_, hright⟩, hinside.part (.tail _ (.head _))⟩
  | var => exact here hstarts rfl trivial
  | assignTarget hrun =>
    obtain ⟨⟨pending, hvalue, -⟩, hinside⟩ := hfits
    exact h.afterExpr ih hstarts .assignValue ⟨⟨_, hvalue⟩, hinside.part (.head _)⟩ hrun
      fun _ hv => hv
  | @arguments n m m₁ x callee close arguments v hrun =>
    obtain ⟨⟨pending, hcallee, harguments⟩, hinside⟩ := hfits
    refine h.afterExpr ih hstarts .callee ⟨⟨_, hcallee⟩, hinside.part (.head _)⟩ hrun ?_
    intro w' hw _
    have hfits : w.Fits m.scope.chain around (.exprs x arguments) :=
      ⟨⟨_, harguments⟩, fun e he => hinside.part (.tail _ (List.mem_map_of_mem he))⟩
    exact hfits.mono hw
  | @call n m m₁ m₂ x callee close arguments v vs hrun hruns =>
    obtain ⟨⟨pending, hcallee, harguments⟩, hinside⟩ := hfits
    have hfirst : w.Fits m.scope.chain around (.expr x callee) :=
      ⟨⟨_, hcallee⟩, hinside.part (.head _)⟩
    have hsecond : w.Fits m.scope.chain around (.exprs x arguments) :=
      ⟨⟨_, harguments⟩, fun e he => hinside.part (.tail _ (List.mem_map_of_mem he))⟩
    obtain ⟨w₁, hw₁, hm₁, hv⟩ := (ih.expr (h.first .callee rfl hfirst)).of_done hrun
    have hscope₁ := scope_of_done ((Eval.restoring n).expr callee) hrun
    have hready := h.next (.arguments hrun) hw₁ hm₁ hscope₁ (hsecond.mono hw₁)
    obtain ⟨w₂, hw₂, hm₂, hvs⟩ := (ih.exprs hready).of_done hruns
    have hscope₂ := scope_of_done ((Eval.restoring n).exprs arguments) hruns
    exact ⟨w₂, around, hw₁.trans hw₂,
      h.next hstarts (hw₁.trans hw₂) hm₂ (hscope₂.trans hscope₁) ⟨hv.mono hw₂, hvs⟩⟩
  | setValue hrun =>
    obtain ⟨⟨pending, hobject, hvalue⟩, hinside⟩ := hfits
    refine h.afterExpr ih hstarts .setObject ⟨⟨_, hobject⟩, hinside.part (.head _)⟩ hrun ?_
    intro w' hw _
    exact Fits.mono hw ⟨⟨_, hvalue⟩, hinside.part (.tail _ (.head _))⟩
  | this => exact here hstarts rfl trivial
  | super => exact here hstarts rfl hfits
  | first =>
    obtain ⟨⟨pending, hscoped⟩, hinside⟩ := hfits
    exact here hstarts rfl ⟨⟨pending, hscoped.1⟩, hinside _ (.head _)⟩
  | @others n m m₁ x e rest v hrun =>
    obtain ⟨⟨pending, he, hrest⟩, hinside⟩ := hfits
    refine h.afterExpr ih hstarts .first ⟨⟨_, he⟩, hinside _ (.head _)⟩ hrun ?_
    intro w' hw _
    have hfits : w.Fits m.scope.chain around (.exprs x rest) :=
      ⟨⟨_, hrest⟩, fun e he => hinside e (.tail _ he)⟩
    exact hfits.mono hw
  | expression | print => exact here hstarts rfl ⟨⟨_, hfits.1⟩, hfits.2.part (.head _)⟩
  | initializer =>
    obtain ⟨⟨hname, -, hvalue⟩, hinside⟩ := hfits
    refine ⟨w, _, .refl w, h.nextIn hstarts (.refl w) h.machine rfl (h.seats.declare hname) ?_⟩
    exact ⟨⟨_, hvalue _ rfl⟩, hinside.part (.head _)⟩
  | block hrun =>
    obtain ⟨w', hw, hready⟩ := h.block hfits.1
      (fun s hs => hfits.2.part (List.mem_map_of_mem hs)) hstarts hrun
    exact ⟨w', _, hw, hready⟩
  | ifThenCondition | ifElseCondition =>
    exact here hstarts rfl ⟨⟨_, hfits.1.1⟩, hfits.2.part (.head _)⟩
  | ifThenBranch hrun _ =>
    obtain ⟨⟨hcondition, hthen, -⟩, hinside⟩ := hfits
    refine h.afterExpr ih hstarts .ifThenCondition ⟨⟨_, hcondition⟩, hinside.part (.head _)⟩ hrun ?_
    intro w' hw _
    exact Fits.mono hw ⟨hthen, hinside.part (.tail _ (.head _))⟩
  | ifElseThen hrun _ =>
    obtain ⟨⟨hcondition, ⟨hthen, -⟩, -⟩, hinside⟩ := hfits
    refine h.afterExpr ih hstarts .ifElseCondition ⟨⟨_, hcondition⟩, hinside.part (.head _)⟩ hrun ?_
    intro w' hw _
    exact Fits.mono hw ⟨hthen, hinside.part (.tail _ (.head _))⟩
  | ifElseElse hrun _ =>
    obtain ⟨⟨hcondition, -, helse, -⟩, hinside⟩ := hfits
    refine h.afterExpr ih hstarts .ifElseCondition ⟨⟨_, hcondition⟩, hinside.part (.head _)⟩ hrun ?_
    intro w' hw _
    exact Fits.mono hw ⟨helse, hinside.part (.tail _ (.tail _ (.head _)))⟩
  | whileDo => exact here hstarts rfl hfits
  | ret => exact here hstarts rfl ⟨⟨_, hfits.1 _ rfl⟩, hfits.2.part (.head _)⟩
  | superclass => exact here hstarts rfl trivial
  | @classDecl n m m₁ name superclass methods parent hrun =>
    obtain ⟨⟨hname, -, -, hmethods⟩, hinside⟩ := hfits
    obtain ⟨w₁, hw, hm, hparent, hsome⟩ := (leaves_superclass? h.machine superclass).of_done hrun
    have hscope := scope_of_done (.superclass? superclass) hrun
    have hinherit : (around.declare name.lexeme).inherit superclass =
        (around.declare name.lexeme).inherit parent := by
      cases superclass <;> cases parent <;> first | rfl | exact nomatch hsome
    rw [hinherit] at hmethods
    refine ⟨w₁, around, hw, h.next hstarts hw hm hscope ⟨hname, hparent, ?_, fun decl hdecl => ?_⟩⟩
    · exact hmethods.extend hw.knowledge _
    · exact (hinside.part (List.mem_map_of_mem hdecl)).mono hw
  | head | programHead => exact here hstarts rfl ⟨hfits.1.1, hfits.2 _ (.head _)⟩
  | @tail n m m₁ s rest hrun =>
    exact h.afterStmt ih hstarts .head ⟨hfits.1.1, hfits.2 _ (.head _)⟩ hrun
      ⟨hfits.1.2, fun s hs => hfits.2 s (.tail _ hs)⟩
  | @programTail n m m₁ s rest completion hrun =>
    exact h.afterStmt ih hstarts .programHead ⟨hfits.1.1, hfits.2 _ (.head _)⟩ hrun
      ⟨hfits.1.2, fun s hs => hfits.2 s (.tail _ hs)⟩
  | loopCondition => exact here hstarts rfl ⟨⟨_, hfits.1.1⟩, hfits.2.part (.head _)⟩
  | loopBody hrun _ =>
    obtain ⟨⟨hcondition, hbody, -⟩, hinside⟩ := hfits
    refine h.afterExpr ih hstarts .loopCondition ⟨⟨_, hcondition⟩, hinside.part (.head _)⟩ hrun ?_
    intro w' hw _
    exact Fits.mono hw ⟨hbody, hinside.part (.tail _ (.head _))⟩
  | @loopAgain n m m₁ m₂ condition body v hrun htruthy hruns =>
    obtain ⟨⟨hcondition, hbody, -⟩, hinside⟩ := hfits
    have hfirst : w.Fits m.scope.chain around (.expr none condition) :=
      ⟨⟨_, hcondition⟩, hinside.part (.head _)⟩
    have hsecond : w.Fits m.scope.chain around (.stmt body) :=
      ⟨hbody, hinside.part (.tail _ (.head _))⟩
    obtain ⟨w₁, hw₁, hm₁, -⟩ := (ih.expr (h.first .loopCondition rfl hfirst)).of_done hrun
    have hscope₁ := scope_of_done ((Eval.restoring n).expr condition) hrun
    have hready := h.next (.loopBody hrun htruthy) hw₁ hm₁ hscope₁ (hsecond.mono hw₁)
    obtain ⟨w₂, hw₂, hm₂, -⟩ := (ih.stmt hready).of_done hruns
    have hscope₂ := scope_of_done ((Eval.restoring n).stmt body) hruns
    have hw := hw₁.trans hw₂
    exact ⟨w₂, around, hw, h.next hstarts hw hm₂ (hscope₂.trans hscope₁) (h.fits.mono hw)⟩
  | callFunction _ _ | callClass _ _ =>
    exact ⟨w, around, .refl w, h.next hstarts (.refl w) { h.machine with } rfl hfits⟩
  | construct hnew hinitializer hbind =>
    obtain ⟨w', hw, -, hready⟩ := h.initializer hnew hinitializer hbind
    exact ⟨w', around, hw, hready⟩
  | apply hrun => exact h.body hrun

end Chronicle

end LoxLang
