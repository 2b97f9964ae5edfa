import LoxLang.Proofs.Calls.Progress
import LoxLang.Proofs.Copies.Evaluation

/-!
# The code that evaluation comes to

Whatever is known of all code in a machine and of the task that evaluation begins with is known of
all it comes to: evaluation makes no code of its own.

1. `Visit.Copied.visits`: the tasks that evaluation comes to.
2. `Visit.Copied.after`: the machines it leaves behind.
-/

namespace LoxLang

/-- The code in a task is known, and its values can be copied. -/
def Task.Copied (w : Copy) : Task → Prop
  | .expr _ e => w.code (.expr e)
  | .exprs _ es => ∀ e ∈ es, w.code (.expr e)
  | .stmt s => w.code (.stmt s)
  | .stmts body => ∀ s ∈ body, w.code (.stmt s)
  | .loop condition body => w.code (.stmt (.whileDo condition body))
  | .program statements => ∀ s ∈ statements, w.code (.stmt s)
  | .read o => ∃ c, w.code c ∧ o ∈ c.uses
  | .write _ target value =>
    (∃ c, w.code c ∧ target ∈ c.uses) ∧ w.Binds target.name ∧ ∃ value', w.Same value value'
  | .super keyword _ => ∃ c, w.code c ∧ keyword ∈ c.uses
  | .call callee _ arguments =>
    (∃ callee', w.Same callee callee') ∧ ∃ arguments', List.Forall₂ w.Same arguments arguments'
  | .apply closure arguments =>
    (∃ closure', w.SameClosure closure closure') ∧
      ∃ arguments', List.Forall₂ w.Same arguments arguments'
  | .construct c arguments =>
    (∃ c', c.Alike w.likeness c') ∧ ∃ arguments', List.Forall₂ w.Same arguments arguments'
  | .makeClass name parent methods =>
    w.Binds name.lexeme ∧ (∃ parent', Option.Rel (Class.Alike w.likeness) parent parent') ∧
      ∀ m ∈ methods, w.code (.function m)

/-- The machine of a visit can be copied, and so can its task. -/
structure Visit.Copied (w : Copy) (v : Visit) : Prop where
  machine : ∃ m', w.Alike v.machine m'
  task : v.task.Copied w

namespace Copy.Simulates

variable {α β : Type} {w : Copy} {R : α → β → Prop} {step : Eval α} {step' : Eval β}
  {m m' : Machine}

theorem of_done (h : w.Simulates R step step') (hm : w.Alike m m') {a : α} {n : Machine}
    (hrun : step m = .done a n) : ∃ b n', w.Alike n n' ∧ R a b := by
  have hstep := h m m' hm
  rw [hrun] at hstep
  obtain ⟨b, n', -, hn⟩ := hstep.of_done
  exact ⟨b, n', hn⟩

/-- However a step ends, its machine can be copied. -/
theorem machine (h : w.Simulates R step step') (hm : w.Alike m m') :
    ∃ n', w.Alike (step m).machine n' := by
  have hstep := h m m' hm
  generalize step m = e at hstep ⊢
  generalize step' m' = e' at hstep
  cases hstep with
  | done hn => exact ⟨_, hn.1⟩
  | failed _ hn => exact ⟨_, hn⟩
  | exhausted hn => exact ⟨_, hn⟩

end Copy.Simulates

namespace Visit.Copied

variable {w : Copy} {d : Move} (hd : w.moves d) {n k : Nat} {m m₁ m' : Machine}
include hd

omit hd in
theorem knows {c : Code} (hc : w.code c) {o : Occurrence} (ho : o ∈ c.uses) : w.Knows o :=
  fun hd => w.agree hc o ho hd

/-- What comes after an expression. -/
theorem next {e : Expr} {v : Value} {t : Task} (hm : w.Alike m m') (he : w.code (.expr e))
    (hrun : Eval.expr n e m = .done v m₁) (ht : t.Copied w) : Visit.Copied w ⟨k, t, m₁⟩ := by
  obtain ⟨v', n', hn, -⟩ := ((Copy.inStep n).expr hd he).of_done hm hrun
  exact ⟨⟨n', hn⟩, ht⟩

omit hd in
/-- A body that is entered in a new scope. -/
theorem inside {around scope : Scope} {contents contents' : Bindings Value} {body : List Stmt}
    (hm : w.Alike m m') (hcontents : w.SameBindings contents contents')
    (hb : ∀ {x v}, Bindings.get? contents x = some v → w.binds x v)
    (hrun : Eval.openScope around contents m = .done scope m₁)
    (h : ∀ s ∈ body, w.code (.stmt s)) :
    Visit.Copied w ⟨k, .stmts body, { m₁ with scope := scope }⟩ := by
  obtain ⟨-, n', hn, -⟩ := (Copy.simulates_openScope rfl hcontents hb).of_done hm hrun
  exact ⟨⟨{ n' with scope := scope }, { hn with scope := rfl }⟩, h⟩

omit hd in
theorem initializer {c : Class} {vs : List Value} {object : Value} {f g : Closure} {m₂ : Machine}
    (hm : w.Alike m m') (h : (Task.construct c vs).Copied w)
    (hnew : Eval.newObject c m = .done object m₁) (hf : c.initializer? = some f)
    (hbind : Eval.bindThis f object m₁ = .done g m₂) : Visit.Copied w ⟨k, .apply g vs, m₂⟩ := by
  obtain ⟨⟨c', hc⟩, hvs⟩ := h
  obtain ⟨object', n', hn, hobject, hthis⟩ := (Copy.simulates_newObject hc).of_done hm hnew
  rcases rel_cases (hc.method? FunctionDecl.initializerName) with ⟨hi, -⟩ | ⟨f₀, f', hi, -, hsame⟩
  · exact nomatch hf.symm.trans hi
  · obtain rfl : f = f₀ := Option.some.inj (hf.symm.trans hi)
    obtain ⟨g', k', hk, hg⟩ := (Copy.simulates_bindThis hsame hobject hthis).of_done hn hbind
    exact ⟨⟨k', hk⟩, ⟨g', hg⟩, hvs⟩

/-- Of what a visit starts, as much is known as of the visit itself. -/
theorem starts {u v : Visit} (hs : Starts u v) (hu : u.Copied w) : v.Copied w := by
  obtain ⟨⟨m', hm⟩, h⟩ := hu
  cases hs with
  | grouping | unary | binaryLeft | logicalLeft | assignValue | callee | getObject | setObject
  | expression | print | initializer | ifThenCondition | ifElseCondition | loopCondition | ret =>
    exact ⟨⟨m', hm⟩, w.parts h _ (.head _)⟩
  | binaryRight hrun | logicalRight hrun _ | setValue hrun =>
    exact next hd hm (w.parts h _ (.head _)) hrun (w.parts h _ (.tail _ (.head _)))
  | var | this | super => exact ⟨⟨m', hm⟩, _, h, .head _⟩
  | superclass => exact ⟨⟨m', hm⟩, _, h, .head _⟩
  | assignTarget hrun =>
    obtain ⟨v', n', hn, hv⟩ :=
      ((Copy.inStep _).expr hd (w.parts h _ (.head _))).of_done hm hrun
    exact ⟨⟨n', hn⟩, ⟨_, h, .head _⟩, w.named h _ (.head _), v', hv⟩
  | arguments hrun =>
    exact next hd hm (w.parts h _ (.head _)) hrun fun e he =>
      w.parts h _ (.tail _ (List.mem_map_of_mem he))
  | @call n m m₁ m₂ x callee close arguments v vs hrun hargs =>
    obtain ⟨v', n', hn, hv⟩ :=
      ((Copy.inStep _).expr hd (w.parts h _ (.head _))).of_done hm hrun
    have harguments : ∀ e ∈ arguments, w.code (.expr e) := fun e he =>
      w.parts h _ (.tail _ (List.mem_map_of_mem he))
    obtain ⟨vs', k', hk, hvs⟩ := ((Copy.inStep _).exprs hd harguments).of_done hn hargs
    exact ⟨⟨k', hk⟩, ⟨v', hv⟩, vs', hvs⟩
  | first => exact ⟨⟨m', hm⟩, h _ (.head _)⟩
  | others hrun =>
    exact next hd hm (h _ (.head _)) hrun fun e he => h e (.tail _ he)
  | block hrun =>
    exact inside hm .nil nofun hrun fun s hs => w.parts h _ (List.mem_map_of_mem hs)
  | ifThenBranch hrun _ | ifElseThen hrun _ | loopBody hrun _ =>
    exact next hd hm (w.parts h _ (.head _)) hrun (w.parts h _ (.tail _ (.head _)))
  | ifElseElse hrun _ =>
    exact next hd hm (w.parts h _ (.head _)) hrun (w.parts h _ (.tail _ (.tail _ (.head _))))
  | whileDo => exact ⟨⟨m', hm⟩, h⟩
  | @classDecl n m m₁ name superclass methods parent hrun =>
    have hknows : ∀ o ∈ superclass, w.Knows o := fun o ho => knows h (Option.mem_toList.2 ho)
    obtain ⟨parent', n', hn, hparent⟩ := (Copy.simulates_superclass? hd hknows).of_done hm hrun
    exact ⟨⟨n', hn⟩, w.named h _ (.head _), ⟨parent', hparent⟩, fun m hm =>
      w.parts h _ (List.mem_map_of_mem hm)⟩
  | head | programHead => exact ⟨⟨m', hm⟩, h _ (.head _)⟩
  | tail hrun | programTail hrun =>
    obtain ⟨c', n', hn, -⟩ := ((Copy.inStep _).stmt hd (h _ (.head _))).of_done hm hrun
    exact ⟨⟨n', hn⟩, fun s hs => h s (.tail _ hs)⟩
  | loopAgain hrun _ hbody =>
    obtain ⟨v', n', hn, -⟩ := ((Copy.inStep _).expr hd (w.parts h _ (.head _))).of_done hm hrun
    obtain ⟨c', k', hk, -⟩ :=
      ((Copy.inStep _).stmt hd (w.parts h _ (.tail _ (.head _)))).of_done hn hbody
    exact ⟨⟨k', hk⟩, h⟩
  | callFunction _ _ =>
    obtain ⟨⟨v', hv⟩, hvs⟩ := h
    cases hv with
    | function id hf =>
      exact ⟨⟨{ m' with depth := m'.depth + 1 }, { hm with depth := congrArg Nat.succ hm.depth }⟩,
        ⟨_, hf⟩, hvs⟩
  | callClass _ _ =>
    obtain ⟨⟨v', hv⟩, hvs⟩ := h
    cases hv with
    | classValue hc =>
      exact ⟨⟨{ m' with depth := m'.depth + 1 }, { hm with depth := congrArg Nat.succ hm.depth }⟩,
        ⟨_, hc⟩, hvs⟩
  | construct hnew hf hbind => exact initializer hm h hnew hf hbind
  | apply hrun =>
    obtain ⟨⟨c', hc⟩, vs', hvs⟩ := h
    exact inside hm (hc.contents hvs) hc.binds hrun fun s hs =>
      w.parts hc.code _ (List.mem_map_of_mem hs)

/-- Evaluation comes to no code but what there was. -/
theorem visits {u v : Visit} (hs : Visits u v) (hu : u.Copied w) : v.Copied w := by
  induction hs with
  | refl => exact hu
  | tail _ hstep ih => exact ih.starts hd hstep

/-- The machine that a visit leaves behind can be copied again. -/
theorem after {v : Visit} (h : v.Copied w) : ∃ n', w.Alike v.after n' := by
  obtain ⟨n, task, m⟩ := v
  obtain ⟨⟨m', hm⟩, h⟩ := h
  have hn : w.InStep n := Copy.inStep n
  cases task with
  | expr x e => exact (hn.expr hd h).machine hm
  | exprs x es => exact (hn.exprs hd h).machine hm
  | stmt s => exact (hn.stmt hd h).machine hm
  | stmts body => exact (hn.stmts hd h).machine hm
  | loop condition body => exact (hn.loop hd h).machine hm
  | program statements =>
    obtain ⟨n', hn'⟩ := (Copy.simulates_sequence n hd statements h).machine hm
    rw [← Eval.machine_program] at hn'
    exact ⟨n', hn'⟩
  | read o =>
    obtain ⟨c, hc, ho⟩ := h
    exact (Copy.simulates_lookUp hd (knows hc ho)).machine hm
  | write x target value =>
    obtain ⟨⟨c, hc, ho⟩, hb, v', hv⟩ := h
    exact (Copy.simulates_assign hd (knows hc ho) hb hv).machine hm
  | super keyword method =>
    obtain ⟨c, hc, ho⟩ := h
    exact (Copy.simulates_superMethod hd (knows hc ho) method).machine hm
  | call callee line arguments =>
    obtain ⟨⟨v', hv⟩, vs', hvs⟩ := h
    exact (Copy.simulates_call hn.stmts hd hv line hvs).machine hm
  | apply closure arguments =>
    obtain ⟨⟨c', hc⟩, vs', hvs⟩ := h
    exact (Copy.simulates_apply hn.stmts hc hvs).machine hm
  | construct c arguments =>
    obtain ⟨⟨c', hc⟩, vs', hvs⟩ := h
    exact (Copy.simulates_construct hn.stmts hc hvs).machine hm
  | makeClass name parent methods =>
    obtain ⟨hb, ⟨parent', hparent⟩, hmethods⟩ := h
    exact (Copy.simulates_makeClass hd hb hparent hmethods).machine hm

end Visit.Copied

end LoxLang
