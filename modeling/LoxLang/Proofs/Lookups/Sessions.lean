import Mathlib
import LoxLang.Proofs.Lookups.Failures
import LoxLang.Proofs.Lookups.Found
import LoxLang.Proofs.Scanning.Items

/-!
# Only globals are missed

In every session, lookups with a distance find what they look for. A run that stops because a name
was not found has come to a lookup without a distance: one of a global.

1. `Visit.Sound.fails`: what fails in this way is a lookup without a distance.
2. `Session.lookups_found`: all runs of all sessions.
-/

namespace LoxLang

/-- The visit looks a mention up, or gives its variable another value. -/
def Visit.Mentions (v : Visit) (o : Occurrence) : Prop :=
  match v.task with
  | .read o' => o' = o
  | .write _ target _ => target = o
  | _ => False

section

variable {m : Machine} {o : Occurrence} {e : RuntimeError}

theorem eq_of_lookUp_failed {n : Machine} (hd : m.distances[o.id]? = none)
    (h : Eval.lookUp o m = .failed (.runtime e) n) :
    e = ⟨o.token.line, .undefinedVariable o.name⟩ := by
  rw [lookUp_of_global hd] at h
  cases hv : Bindings.get? (m.store.frame 0) o.name with
  | none =>
    rw [hv] at h
    injection h with h
    injection h with h
    exact h.symm
  | some v =>
    rw [hv] at h
    exact nomatch h

theorem eq_of_assign_failed {v : Value} {n : Machine} (hd : m.distances[o.id]? = none)
    (h : Eval.assign o v m = .failed (.runtime e) n) :
    e = ⟨o.token.line, .undefinedVariable o.name⟩ := by
  rw [assign_of_global hd] at h
  split at h
  · exact nomatch h
  · injection h with h
    injection h with h
    exact h.symm

/-- A superclass may lack the method, and `super` may be bound to no class; but names are found. -/
theorem isMissingName_of_inherited_failed {line : Nat} {method : Token} {parent this : Value}
    {n : Machine} (h : Eval.inherited line method parent this m = .failed (.runtime e) n) :
    e.fault.isMissingName = false := by
  unfold Eval.inherited at h
  split at h
  · next c address d =>
    cases hm : c.method? method.lexeme with
    | none =>
      rw [hm] at h
      injection h with h
      injection h with h
      exact h ▸ rfl
    | some found =>
      rw [hm] at h
      exact nomatch h
  · injection h with h
    injection h with h
    exact h ▸ rfl

theorem Operator.isMissingName_unary (operator : Kind) (v : Value) (fault : RuntimeFault)
    (h : Operator.unary operator v = .error fault) : fault.isMissingName = false := by
  unfold Operator.unary at h
  split at h <;> try split at h
  all_goals cases h <;> rfl

theorem Operator.isMissingName_binary (operator : Kind) (v v' : Value) (fault : RuntimeFault)
    (h : Operator.binary operator v v' = .error fault) : fault.isMissingName = false := by
  unfold Operator.binary Operator.add Operator.numeric at h
  split at h <;> try split at h
  all_goals try split at h
  all_goals cases h <;> rfl

/-- A class that is declared in a scope whose frame exists gets its value there. -/
theorem makeClass_done (hm : m.scope.frame < m.store.frames.size) (name : Token)
    (parent : Option Class) (methods : List FunctionDecl) :
    ∃ n, Eval.makeClass name parent methods m = .done () n := by
  let defined : Machine := { m with store := m.store.define m.scope name.lexeme .nil }
  have hhas : Bindings.has (defined.store.frame m.scope.frame) name.lexeme := by
    rw [show defined.store = m.store.put m.scope.frame name.lexeme .nil from rfl,
      Store.frame_put _ _ _ _ _ hm, if_pos rfl]
    simp [Bindings.has, Bindings.get?_put]
  have hsize : m.scope.frame < defined.store.frames.size := by
    simpa [defined, Store.define, Store.put] using hm
  obtain ⟨scope, n, hscope, hsame, hframe⟩ : ∃ scope n,
      Eval.methodScope parent defined = .done scope n ∧ n.scope = m.scope ∧
        n.store.frame m.scope.frame = defined.store.frame m.scope.frame := by
    cases parent with
    | none => exact ⟨_, _, rfl, rfl, rfl⟩
    | some c =>
      refine ⟨_, _, rfl, rfl, ?_⟩
      simp only [Store.frame]
      rw [Array.getElem?_push, if_neg (Nat.ne_of_lt hsize)]
  have howner : n.store.owner? n.scope.chain name.lexeme = some m.scope.frame := by
    rw [hsame]
    simp only [Store.owner?, Scope.chain, List.find?_cons, hframe, hhas]
  unfold Eval.makeClass
  rw [Step.bind_of_done (show Eval.define name.lexeme .nil m = .done () defined from rfl),
    Step.bind_of_done hscope, Step.bind_of_done (show Eval.freshId n = .done n.nextId _ from rfl)]
  simp [Eval.assignClass, bind, Step.bind, Step.look, howner, Step.require, Step.pure, Eval.put,
    Step.change]

end

/-- Where the frames are as the resolution found them, only a global is missed. -/
theorem Visit.Sound.read_failed {budget : Nat} {o : Occurrence} {m n : Machine} {e : RuntimeError}
    (h : Visit.Sound ⟨budget, .read o, m⟩) (hrun : Eval.lookUp o m = .failed (.runtime e) n) :
    m.distances[o.id]? = none ∧ e = ⟨o.token.line, .undefinedVariable o.name⟩ := by
  obtain ⟨w, p, m', hm, h⟩ := h
  cases hd : m.distances[o.id]? with
  | none => exact ⟨rfl, eq_of_lookUp_failed hd hrun⟩
  | some d =>
    obtain ⟨l, g, -, hg, ha, hb⟩ := hm.found h.1 hd
    obtain ⟨u, u', hu, -⟩ := hm.corresponds.memory.values ha (hb.resolve_right h.2)
    exact nomatch (lookUp_of_distance hd hg hu).symm.trans hrun

theorem Visit.Sound.write_failed {budget : Nat} {x : Option String} {target : Occurrence}
    {value : Value} {m n : Machine} {e : RuntimeError}
    (h : Visit.Sound ⟨budget, .write x target value, m⟩)
    (hrun : Eval.assign target value m = .failed (.runtime e) n) :
    m.distances[target.id]? = none ∧ e = ⟨target.token.line, .undefinedVariable target.name⟩ := by
  obtain ⟨w, p, m', hm, h⟩ := h
  cases hd : m.distances[target.id]? with
  | none => exact ⟨rfl, eq_of_assign_failed hd hrun⟩
  | some d =>
    obtain ⟨l, g, -, hg, -⟩ := hm.found h.2 hd
    exact nomatch (assign_of_distance hd hg value).symm.trans hrun

/-- Where the frames are as the resolution found them, a name that is missed is a global. -/
theorem Visit.Sound.fails {v : Visit} (h : v.Sound) {e : RuntimeError} (hfails : v.FailsWith e)
    (hmissing : e.fault.isMissingName) :
    ∃ o, v.Mentions o ∧ v.machine.distances[o.id]? = none ∧
      e = ⟨o.token.line, .undefinedVariable o.name⟩ := by
  obtain ⟨budget, task, m⟩ := v
  cases task with
  | read o =>
    obtain ⟨n, hrun⟩ := hfails
    exact ⟨o, rfl, h.read_failed hrun⟩
  | write x target value =>
    obtain ⟨n, hrun⟩ := hfails
    exact ⟨target, rfl, h.write_failed hrun⟩
  | super keyword method =>
    obtain ⟨n, hrun⟩ := hfails
    obtain ⟨w, p, m', hm, h⟩ := h
    obtain ⟨d, hd, ⟨parent, -, -, hparent, -⟩, this, -, -, hthis, -⟩ := hm.super h.1 h.2.1 h.2.2
    have hrun := (superMethod_of_distance hd hparent hthis method).symm.trans hrun
    exact nomatch hmissing.symm.trans (isMissingName_of_inherited_failed hrun)
  | makeClass name parent methods =>
    obtain ⟨n, hrun⟩ := hfails
    obtain ⟨w, p, m', hm, -⟩ := h
    obtain ⟨k, hdone⟩ := makeClass_done hm.frame_lt name parent methods
    exact nomatch hdone.symm.trans hrun
  | expr x t =>
    cases t with
    | unary operator operand =>
      obtain ⟨v, hv⟩ := hfails
      exact absurd hmissing (by simp [Operator.isMissingName_unary operator.kind v _ hv])
    | binary left operator right =>
      obtain ⟨v, v', hv⟩ := hfails
      exact absurd hmissing (by simp [Operator.isMissingName_binary operator.kind v v' _ hv])
    | _ => exact hfails.elim
  | _ => exact hfails.elim

/-! ## Runs -/

namespace Session

variable {s : Session} {budget : Nat} {source : String}

/-- What a session comes to when it runs a source. -/
def Visits (s : Session) (budget : Nat) (source : String) (v : Visit) : Prop :=
  let reading := Reading.ofSource source s.nextId
  ∃ distances, reading.errors = [] ∧ resolve reading.statements = .ok distances ∧
    LoxLang.Visits ⟨budget, .program reading.statements, s.machine.learn distances⟩ v

/-- The statements of a source begin in the globals, with all their mentions traced. -/
theorem Reachable.sound (hs : s.Reachable) {v : Visit} (hv : s.Visits budget source v) :
    v.Sound := by
  obtain ⟨distances, hempty, hresolve, hv⟩ := hv
  obtain ⟨w, s', h⟩ := hs.same
  obtain ⟨hf, hn⟩ := Reading.formed_of_accepted hempty
  exact Visit.Sound.visits hv
    ⟨_, .top, s'.machine, h.learn hresolve hn, rfl, rfl, h.knows.scoped_learn hresolve hf hn⟩

/-- A run that stops with a traced failure has come to where it arose. -/
theorem blames_run {e : RuntimeError} (hstopped : (s.run budget source).1 = .stopped (.runtime e))
    (htraced : e.fault.isTraced) : ∃ v, s.Visits budget source v ∧ v.FailsWith e := by
  simp only [run, runReading] at hstopped
  split at hstopped
  · next hempty =>
    split at hstopped
    · cases hstopped
    · next distances hresolve =>
      split at hstopped
      · cases hstopped
      · next failure m hrun =>
        injection hstopped with hstopped
        subst hstopped
        obtain ⟨v, hv, hfails⟩ := (blames_program budget _ _).failed e m hrun htraced
        exact ⟨v, ⟨distances, List.isEmpty_iff.1 hempty, hresolve, hv⟩, hfails⟩
      · cases hstopped
  · cases hstopped

/-- In every session that comes of actions of its host, each lookup with a distance finds its name
exactly so many scopes out; what a run misses, it looks up without a distance. -/
theorem lookups_found (hs : s.Reachable) (budget : Nat) (source : String) :
    (∀ v, s.Visits budget source v → v.Found) ∧
      ∀ e, (s.run budget source).1 = .stopped (.runtime e) → e.fault.isMissingName →
        ∃ v o, s.Visits budget source v ∧ v.Mentions o ∧ v.machine.distances[o.id]? = none ∧
          e = ⟨o.token.line, .undefinedVariable o.name⟩ := by
  refine ⟨fun v hv => (hs.sound hv).found, fun e hstopped hmissing => ?_⟩
  obtain ⟨v, hv, hfails⟩ := blames_run hstopped (by simp [RuntimeFault.isTraced, hmissing])
  obtain ⟨o, ho, hd, he⟩ := (hs.sound hv).fails hfails hmissing
  exact ⟨v, o, hv, ho, hd, he⟩

/-- In `{var a;a;}` the mention of `a` has a distance and is found; in `b;` that of `b` has none. -/
theorem lookups_found_start :
    (start .unlimited 0).Reachable ∧
      (∃ v o, (start .unlimited 0).Visits 9 "{var a;a;}" v ∧ v.task = .read o ∧
        v.machine.distances[o.id]? = some 0 ∧ v.machine.Binds 0 o.name) ∧
      ∃ v o, (start .unlimited 0).Visits 9 "b;" v ∧ v.Mentions o ∧
        v.machine.distances[o.id]? = none ∧ o.name = "b" := by
  have hs : (start .unlimited 0).Reachable := .start _ _
  refine ⟨hs, ?_, ?_⟩
  · have hstatements : (Reading.ofSource "{var a;a;}" 0).statements =
        [.block [.varDecl ⟨.identifier, "a", 1⟩ none,
          .expression (.var ⟨0, ⟨.identifier, "a", 1⟩⟩)]] := by
      rw [Reading.ofSource, scan_eq]
      cbv
    let m := (Machine.start .unlimited 0).learn ((∅ : Distances).insert 0 0)
    let inner := { m with store := ⟨#[[("clock", .native 0)], [("a", .nil)]]⟩, scope := ⟨1, [0]⟩ }
    have hv : (start .unlimited 0).Visits 9 "{var a;a;}"
        ⟨4, .read ⟨0, ⟨.identifier, "a", 1⟩⟩, inner⟩ := by
      refine ⟨(∅ : Distances).insert 0 0, by decide +kernel, ?_, ?_⟩
      · change resolve (Reading.ofSource "{var a;a;}" 0).statements = _
        rw [hstatements]
        rfl
      · change LoxLang.Visits ⟨9, .program (Reading.ofSource "{var a;a;}" 0).statements, m⟩ _
        rw [hstatements]
        exact .head .programHead (.head (.block rfl) (.head (.tail rfl) (.head .head
          (.head .expression (.head .var .refl)))))
    have hd : inner.distances[0]? = some 0 := rfl
    exact ⟨_, _, hv, rfl, hd, (lookups_found hs 9 _).1 _ hv 0 hd⟩
  · have hrun : ((start .unlimited 0).run 9 "b;").1 =
      .stopped (.runtime ⟨1, .undefinedVariable "b"⟩) := by decide +kernel
    obtain ⟨v, o, hv, ho, hd, he⟩ := (lookups_found hs 9 _).2 _ hrun rfl
    injection he with _ hname
    injection hname with hname
    exact ⟨v, o, hv, ho, hd, hname.symm⟩

end Session

end LoxLang
