import LoxLang.Proofs.Locations.Sessions
import LoxLang.Proofs.Lookups.Visits

/-!
# Lookups find what they look for

Whatever evaluation comes to, the frames around it hold the variables that the resolution found
around that part of the program.

1. `Visit.Sound.starts`: so it is for all that a part starts.
2. `Visit.Sound.found`: so no lookup with a distance misses.
-/

namespace LoxLang

open Located (Places)

/-- All mentions in a task are traced at a spot of a world; what is pending there is the variable in
whose initial value the task stands. -/
def Task.Scoped (w : World) (p : Spot) : Task → Prop
  | .expr x e => (∀ y, p.pending = some y → x = some y) ∧
      e.Scoped w.knowledge p.around p.pending
  | .exprs x es => (∀ y, p.pending = some y → x = some y) ∧
      Expr.AllScoped w.knowledge p.around p.pending es
  | .stmt s => p.pending = none ∧ s.Scoped w.knowledge p.around
  | .stmts body => p.pending = none ∧ Stmt.AllScoped w.knowledge p.around body
  | .loop condition body => p.pending = none ∧ condition.Scoped w.knowledge p.around none ∧
      body.Scoped w.knowledge p.around ∧ body.after p.around = p.around
  | .program statements => p.pending = none ∧ p.around = [] ∧
      Stmt.AllScoped w.knowledge [] statements
  | .read o => w.knowledge.Traces p.around o ∧ p.pending ≠ some o.name
  | .write x target _ => (∀ y, p.pending = some y → x = some y) ∧
      w.knowledge.Traces p.around target
  | .super keyword _ => w.knowledge.Traces p.around keyword ∧ keyword.name = "super" ∧
      ∃ d, p.around.locate? "this" = some d ∧ p.around.locate? "super" = some (d + 1)
  | .call callee _ arguments =>
    ∃ callee' arguments', w.Same callee callee' ∧ List.Forall₂ w.Same arguments arguments'
  | .apply closure arguments => arguments.length = closure.arity ∧
      ∃ closure' arguments', w.SameFunction closure closure' ∧
        List.Forall₂ w.Same arguments arguments'
  | .construct c arguments => arguments.length = c.arity ∧
      ∃ c' arguments', c.Alike w.likeness c' ∧ List.Forall₂ w.Same arguments arguments'
  | .makeClass _ _ _ => True

/-- The machine of a visit corresponds to one with locations, and the mentions are traced there. -/
def Visit.Sound (v : Visit) : Prop :=
  ∃ w p m', Related w p v.machine m' ∧ v.task.Scoped w p

namespace Visit.Sound

variable {w : World} {p : Spot} {n : Nat} {m m₁ : Machine} {m' : Located.Machine}

/-- What comes after an expression is at the same spot. -/
theorem next {e : Expr} {v : Value} {k : Nat} {t : Task} (hm : Related w p m m')
    (he : e.Scoped w.knowledge p.around p.pending) (hrun : Eval.expr n e m = .done v m₁)
    (ht : ∀ w₁ : World, w₁.knowledge = w.knowledge → t.Scoped w₁ p) : Visit.Sound ⟨k, t, m₁⟩ := by
  obtain ⟨w₁, p₁, v', n', hw, -, hn, rfl, -⟩ := ((inStep n).expr he).of_done hm hrun
  exact ⟨w₁, p₁, n', hn, ht w₁ hw.knowledge⟩

/-- A condition or a whole expression of a statement, where nothing is pending. -/
theorem here {e : Expr} {k : Nat} (hm : Related w p m m') (hp : p.pending = none)
    (he : e.Scoped w.knowledge p.around none) : Visit.Sound ⟨k, .expr none e, m⟩ :=
  ⟨w, p, m', hm, by simp [hp], hp ▸ he⟩

/-- A call in progress changes nothing but their number. -/
theorem deeper (hm : Related w p m m') :
    Related w p { m with depth := m.depth + 1 } { m' with depth := m'.depth + 1 } := by
  obtain ⟨hc, hscope, hpresent⟩ := hm
  exact ⟨{ hc with depth := congrArg Nat.succ hc.depth }, hscope, hpresent⟩

theorem block {body : List Stmt} {k : Nat} {scope : Scope} (hm : Related w p m m')
    (hp : p.pending = none) (h : Stmt.AllScoped w.knowledge ([] :: p.around) body)
    (hrun : Eval.openScope m.scope [] m = .done scope m₁) :
    Visit.Sound ⟨k, .stmts body, { m₁ with scope := scope }⟩ := by
  obtain ⟨hc, hscope, hpresent⟩ := hm
  have hholds := hpresent.holds
  rw [hp, ← hscope] at hholds
  obtain ⟨hc₁, h₁⟩ := hc.openScope hholds []
  injection hrun with hs hm₁
  subst hs hm₁
  exact ⟨w.openFrame, ⟨⟨m.store.frames.size, m.scope.chain⟩, [] :: p.around, none⟩,
    { m' with places := some (m'.places.getD []) }, ⟨{ hc₁ with }, rfl, h₁⟩, rfl, h⟩

theorem body {c : Closure} {vs : List Value} {k : Nat} {scope : Scope} (hm : Related w p m m')
    (h : (Task.apply c vs).Scoped w p)
    (hrun : Eval.openScope c.scope (c.contents vs) m = .done scope m₁) :
    Visit.Sound ⟨k, .stmts c.decl.body, { m₁ with scope := scope }⟩ := by
  obtain ⟨hlength, c', vs', hc', hvs⟩ := h
  obtain ⟨w₁, places, around, n', -, -, hc₁, -, h₁, hbody⟩ :=
    hm.corresponds.enterFunction hc' hvs hlength
  injection hrun with hs hm₁
  subst hs hm₁
  exact ⟨w₁, ⟨⟨m.store.frames.size, c.scope.chain⟩, around, none⟩,
    { n' with places := some places }, ⟨{ hc₁ with }, rfl, h₁⟩, rfl, hbody⟩

theorem initializer {c : Class} {vs : List Value} {object : Value} {f g : Closure} {k : Nat}
    {m₂ : Machine} (hm : Related w p m m') (h : (Task.construct c vs).Scoped w p)
    (hnew : Eval.newObject c m = .done object m₁) (hf : c.initializer? = some f)
    (hbind : Eval.bindThis f object m₁ = .done g m₂) : Visit.Sound ⟨k, .apply g vs, m₂⟩ := by
  obtain ⟨hlength, c', vs', hc, hvs⟩ := h
  obtain ⟨w₁, p₁, object', n', hw₁, -, hn, rfl, rfl, hobject⟩ :=
    (simulates_newObject hc).of_done hm hnew
  rcases rel_cases (hc.method? FunctionDecl.initializerName) with ⟨hi, -⟩ | ⟨f₀, f', hi, -, hsame⟩
  · exact nomatch hf.symm.trans hi
  · obtain rfl : f = f₀ := Option.some.inj (hf.symm.trans hi)
    obtain ⟨w₂, p₂, g', k', hw₂, -, hk, rfl, hg, hdecl⟩ :=
      (simulates_bindThis hsame hobject).of_done hn hbind
    refine ⟨w₂, p₂, k', hk, ?_, g', vs', hg, hvs.imp fun _ _ hv => hv.mono hw₂.le.likeness⟩
    rw [hlength]
    simp [Class.arity, hf, Closure.arity, hdecl]

/-- What a visit starts is as well prepared as the visit itself. -/
theorem starts {u v : Visit} (hs : Starts u v) (hu : u.Sound) : v.Sound := by
  obtain ⟨w, p, m', hm, h⟩ := hu
  cases hs with
  | grouping | unary | getObject => exact ⟨w, p, m', hm, h⟩
  | binaryLeft | logicalLeft | assignValue | callee | setObject | first =>
    exact ⟨w, p, m', hm, h.1, h.2.1⟩
  | var | super => exact ⟨w, p, m', hm, h.2⟩
  | binaryRight hrun | assignTarget hrun | arguments hrun | setValue hrun | others hrun =>
    exact next hm h.2.1 hrun fun _ hk => ⟨h.1, hk ▸ h.2.2⟩
  | logicalRight hrun _ => exact next hm h.2.1 hrun fun _ hk => ⟨h.1, hk ▸ h.2.2⟩
  | call hrun hargs =>
    obtain ⟨-, hcallee, hscoped⟩ := h
    obtain ⟨w₁, p₁, v', n', hw₁, -, hn, rfl, hv⟩ := ((inStep _).expr hcallee).of_done hm hrun
    obtain ⟨w₂, p₂, vs', k', hw₂, -, hk', rfl, hvs⟩ :=
      ((inStep _).exprs (hw₁.knowledge ▸ hscoped)).of_done hn hargs
    exact ⟨w₂, _, k', hk', v', vs', hv.mono hw₂.le.likeness, hvs⟩
  | this =>
    refine ⟨w, p, m', hm, h.2.1, fun hp => ?_⟩
    exact (hm.present.isName hp).ne_this h.2.2.1
  | expression | print => exact here hm h.1 h.2
  | initializer =>
    obtain ⟨hp, hname, hfresh, hvalue⟩ := h
    obtain ⟨w₁, l?, n', -, hw₁, hn, -⟩ := hm.declare hp hname hfresh
    exact ⟨w₁, _, n', hn, fun y hy => congrArg some (pending_eq_of_declare hy).symm,
      hw₁.knowledge ▸ hvalue _ rfl⟩
  | block hrun => exact block hm h.1 h.2 hrun
  | ifThenCondition | ifElseCondition | loopCondition => exact here hm h.1 h.2.1
  | ifThenBranch hrun _ =>
    exact next hm (h.1.symm ▸ h.2.1) hrun fun _ hk => ⟨h.1, hk ▸ h.2.2.1⟩
  | ifElseThen hrun _ =>
    exact next hm (h.1.symm ▸ h.2.1) hrun fun _ hk => ⟨h.1, hk ▸ h.2.2.1.1⟩
  | ifElseElse hrun _ =>
    exact next hm (h.1.symm ▸ h.2.1) hrun fun _ hk => ⟨h.1, hk ▸ h.2.2.2.1⟩
  | whileDo => exact ⟨w, p, m', hm, h⟩
  | ret => exact here hm h.1 (h.2 _ rfl)
  | superclass => exact ⟨w, p, m', hm, Stmt.Scoped.superclass h.2 _ rfl, by simp [h.1]⟩
  | classDecl hrun =>
    obtain ⟨hp, hscoped⟩ := h
    obtain ⟨w₁, p₁, parent', n', -, -, hn, -⟩ :=
      (simulates_superclass? (Stmt.Scoped.superclass hscoped) hp).of_done hm hrun
    exact ⟨w₁, p₁, n', hn, trivial⟩
  | head => exact ⟨w, p, m', hm, h.1, h.2.1⟩
  | tail hrun =>
    obtain ⟨hp, hs, hrest⟩ := h
    obtain ⟨w₁, p₁, v', n', hw₁, -, hn, rfl, -⟩ := ((inStep _).stmt hp hs).of_done hm hrun
    exact ⟨w₁, _, n', hn, hp, hw₁.knowledge ▸ hrest⟩
  | loopBody hrun _ =>
    exact next hm (h.1.symm ▸ h.2.1) hrun fun _ hk => ⟨h.1, hk ▸ h.2.2.1⟩
  | loopAgain hrun _ hbody =>
    obtain ⟨hp, hcondition, hscoped, hafter⟩ := h
    obtain ⟨w₁, p₁, v', n', hw₁, -, hn, rfl, -⟩ :=
      ((inStep _).expr (hp.symm ▸ hcondition)).of_done hm hrun
    obtain ⟨w₂, p₂, c', k', hw₂, -, hk', rfl, -⟩ :=
      ((inStep _).branch hp (hw₁.knowledge ▸ hscoped) hafter).of_done hn hbody
    have hk := hw₂.knowledge.trans hw₁.knowledge
    exact ⟨w₂, _, k', hk', hp, hk ▸ hcondition, hk ▸ hscoped, hafter⟩
  | programHead => exact ⟨w, p, m', hm, h.1, h.2.1.symm ▸ h.2.2.1⟩
  | programTail hrun =>
    obtain ⟨hp, haround, hs, hrest⟩ := h
    obtain ⟨w₁, p₁, v', n', hw₁, -, hn, rfl, -⟩ :=
      ((inStep _).stmt hp (haround.symm ▸ hs)).of_done hm hrun
    rw [p.after_of_outside haround] at hn
    exact ⟨w₁, p, n', hn, hp, haround, hw₁.knowledge ▸ Stmt.after_nil _ ▸ hrest⟩
  | callFunction hlength _ =>
    obtain ⟨v', vs', hv, hvs⟩ := h
    cases hv with
    | function id hf => exact ⟨w, p, _, deeper hm, hlength, _, vs', hf, hvs⟩
  | callClass hlength _ =>
    obtain ⟨v', vs', hv, hvs⟩ := h
    cases hv with
    | classValue hc => exact ⟨w, p, _, deeper hm, hlength, _, vs', hc, hvs⟩
  | construct hnew hf hbind => exact initializer hm h hnew hf hbind
  | apply hrun => exact body hm h hrun

theorem visits {u v : Visit} (hs : Visits u v) (hu : u.Sound) : v.Sound := by
  induction hs with
  | refl => exact hu
  | tail _ hstep ih => exact starts hstep ih

end Visit.Sound

/-! ## Lookups -/

/-- The scope exactly so many steps outward is there, and its own frame binds the name. -/
def Machine.Binds (m : Machine) (distance : Nat) (name : String) : Prop :=
  ∃ around, Scope.ancestor? distance m.scope = some around ∧
    Bindings.has (m.store.frame around.frame) name

/-- A lookup with a distance finds the name in exactly that scope. Only in the initial value of a
variable that variable may be written before it is bound; its scope is there all the same. -/
def Visit.Found (v : Visit) : Prop :=
  match v.task with
  | .read o => ∀ d, v.machine.distances[o.id]? = some d → v.machine.Binds d o.name
  | .super keyword _ => ∀ d, v.machine.distances[keyword.id]? = some d →
      v.machine.Binds d keyword.name ∧ 0 < d ∧ v.machine.Binds (d - 1) "this"
  | .write x target _ => ∀ d, v.machine.distances[target.id]? = some d →
      (Scope.ancestor? d v.machine.scope).isSome ∧
        (v.machine.Binds d target.name ∨ d = 0 ∧ x = some target.name)
  | _ => True

theorem ancestor_of_chain {scope : Scope} {d g : Nat} (h : scope.chain[d]? = some g) :
    ∃ around, Scope.ancestor? d scope = some around ∧ around.frame = g := by
  rw [← Scope.frame_ancestor?] at h
  exact Option.map_eq_some_iff.1 h

theorem binds_of_getAt? {m : Machine} {d : Nat} {name : String} {v : Value}
    (h : m.store.getAt? m.scope d name = some v) : m.Binds d name := by
  obtain ⟨around, ha, hv⟩ := Option.bind_eq_some_iff.1 h
  have hv : Bindings.get? (m.store.frame around.frame) name = some v := hv
  exact ⟨around, ha, by simp [Bindings.has, hv]⟩

theorem Visit.Sound.found {v : Visit} (h : v.Sound) : v.Found := by
  obtain ⟨n, task, m⟩ := v
  obtain ⟨w, p, m', hm, h⟩ := h
  cases task with
  | read o =>
    intro d hd
    obtain ⟨l, g, -, hg, ha, hb⟩ := hm.found h.1 hd
    obtain ⟨around, haround, rfl⟩ := ancestor_of_chain hg
    obtain ⟨v, v', hv, -⟩ := hm.corresponds.memory.values ha (hb.resolve_right h.2)
    exact ⟨around, haround, by simp [Bindings.has, hv]⟩
  | super keyword method =>
    intro d hd
    obtain ⟨e, he, ⟨v, -, -, hv, -⟩, u, -, -, hu, -⟩ := hm.super h.1 h.2.1 h.2.2
    obtain rfl : e + 1 = d := Option.some.inj (he.symm.trans hd)
    exact ⟨h.2.1 ▸ binds_of_getAt? hv, Nat.succ_pos e, binds_of_getAt? hu⟩
  | write x target value =>
    intro d hd
    obtain ⟨l, g, -, hg, ha, hb⟩ := hm.found h.2 hd
    obtain ⟨around, haround, rfl⟩ := ancestor_of_chain hg
    refine ⟨by simp [haround], ?_⟩
    rcases hb with hb | hp
    · obtain ⟨v, v', hv, -⟩ := hm.corresponds.memory.values ha hb
      exact .inl ⟨around, haround, by simp [Bindings.has, hv]⟩
    · have hlocate := hm.present.locate?_pending hp
      rw [hm.corresponds.distances, h.2.2, hlocate] at hd
      exact .inr ⟨(Option.some.inj hd).symm, h.1 _ hp⟩
  | _ => trivial

end LoxLang
