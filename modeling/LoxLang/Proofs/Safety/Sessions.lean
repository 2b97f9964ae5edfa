import LoxLang.Proofs.Copies.Sessions
import LoxLang.Proofs.Safety.Returns
import LoxLang.Proofs.Safety.Written
import LoxLang.Proofs.Scanning.Items

/-!
# Programs that are accepted do not go wrong

Evaluation has answers for programs that no source is read as: operators that are none, `this` and
`super` outside of classes, a `return` outside of functions. In the run of a source that is
accepted, none of them is ever given, whatever functions of earlier sources it calls.

1. `Visit.Lawful.safe`: what a run comes to does not go wrong by itself.
2. `Session.never_goes_wrong`: runs.
-/

namespace LoxLang

/-- All code is as the grammar has it, a local `this` is an object, and a local `super` a class. -/
def Discipline.written : Discipline where
  code := Code.Written
  parts := Code.written_hereditary
  binds x v := (x = "this" → ∃ address c, v = .object address c) ∧
    (x = "super" → ∃ c, v = .classValue c)
  named h x hx _ :=
    have hname := h.formed.names x hx
    ⟨fun hthis => absurd hthis hname.ne_this, fun hsuper => absurd hsuper hname.ne_super⟩
  this address c := ⟨fun _ => ⟨address, c, rfl⟩, fun h => absurd h (by decide)⟩
  super c := ⟨fun h => absurd h (by decide), fun _ => ⟨c, rfl⟩⟩

/-! ## Reserved words -/

theorem Store.getAt?_of_chain {store : Store Value} {scope : Scope} {d g : Nat} {x : String}
    {v : Value} (hg : scope.chain[d]? = some g) (hv : Bindings.get? (store.frame g) x = some v) :
    store.getAt? scope d x = some v := by
  obtain ⟨around, haround, rfl⟩ := ancestor_of_chain hg
  simp [Store.getAt?, haround, Store.getLocal?, hv]

/-- A reserved word that is bound around a place is a local variable there. -/
theorem Related.bound {w : World} {p : Spot} {m : Machine} {m' : Located.Machine}
    (hm : Related w p m m') {x : String} {d : Nat} (hd : p.around.locate? x = some d)
    (hx : ¬IsName x) :
    ∃ g v, 0 < g ∧ m.scope.chain[d]? = some g ∧
      Bindings.get? (m.store.frame g) x = some v := by
  obtain ⟨l, g, -, hg, ha, hb⟩ := hm.present.holds.found hd
  obtain ⟨v, -, hv, -⟩ :=
    hm.corresponds.memory.values ha (hb.resolve_right fun hp => hx (hm.present.isName hp))
  exact ⟨g, v, (hm.corresponds.memory.inside ha).1, hm.scope ▸ hg, hv⟩

/-- What is known of all that a run comes to: the frames are as the resolution found them, and code
and values keep to the discipline. -/
structure Visit.Lawful (v : Visit) : Prop where
  sound : v.Sound
  copied : ∃ known, v.Copied (.itself .written known)

/-- Nothing goes wrong in the task itself. -/
def Visit.Safe (v : Visit) : Prop :=
  match v.task with
  | .expr _ (.unary operator _) =>
    ∀ operand : Value, Operator.unary operator.kind operand ≠ .error .invalidUnary
  | .expr _ (.binary _ operator _) =>
    ∀ left right : Value, Operator.binary operator.kind left right ≠ .error .invalidBinary
  | .expr _ (.this keyword) =>
    ∃ address c, Eval.lookUp keyword v.machine = .done (.object address c) v.machine
  | .super keyword _ =>
    ∃ d parent address c, v.machine.distances[keyword.id]? = some (d + 1) ∧
      v.machine.store.getAt? v.machine.scope (d + 1) "super" = some (.classValue parent) ∧
      v.machine.store.getAt? v.machine.scope d "this" = some (.object address c)
  | .makeClass name parent methods =>
    ∃ n, Eval.makeClass name parent methods v.machine = .done () n
  | .apply closure arguments => arguments.length = closure.decl.params.length
  | .program (s :: _) =>
    ∀ value n, Eval.stmt v.budget s v.machine ≠ .done (.returned value) n
  | _ => True

namespace Visit.Lawful

variable {n : Nat} {m : Machine} {x : Option String}

theorem this {o : Occurrence} (h : Lawful ⟨n, .expr x (.this o), m⟩) :
    ∃ address c, Eval.lookUp o m = .done (.object address c) m := by
  obtain ⟨⟨w, p, m', hm, -, htraced, hname, hthis⟩, known, ⟨k, hk⟩, -⟩ := h
  obtain ⟨d, hd⟩ := Option.isSome_iff_exists.1 hthis
  obtain ⟨g, v, hg, hchain, hv⟩ := hm.bound hd fun h => h.ne_this rfl
  obtain ⟨address, c, rfl⟩ := (hk.bound hg hv).1 rfl
  have hdistance : m.distances[o.id]? = some d := by
    rw [hm.corresponds.distances, htraced.2, hname, hd]
  exact ⟨address, c, lookUp_of_distance hdistance hchain (hname.symm ▸ hv)⟩

theorem super {o : Occurrence} {method : Token} (h : Lawful ⟨n, .super o method, m⟩) :
    ∃ d parent address c, m.distances[o.id]? = some (d + 1) ∧
      m.store.getAt? m.scope (d + 1) "super" = some (.classValue parent) ∧
      m.store.getAt? m.scope d "this" = some (.object address c) := by
  obtain ⟨⟨w, p, m', hm, htraced, hname, d, hthis, hsuper⟩, known, ⟨k, hk⟩, -⟩ := h
  obtain ⟨g, v, hg, hchain, hv⟩ := hm.bound hthis fun h => h.ne_this rfl
  obtain ⟨g', v', hg', hchain', hv'⟩ := hm.bound hsuper fun h => h.ne_super rfl
  obtain ⟨address, c, rfl⟩ := (hk.bound hg hv).1 rfl
  obtain ⟨parent, rfl⟩ := (hk.bound hg' hv').2 rfl
  have hdistance : m.distances[o.id]? = some (d + 1) := by
    rw [hm.corresponds.distances, htraced.2, hname, hsuper]
  exact ⟨d, parent, address, c, hdistance, Store.getAt?_of_chain hchain' hv',
    Store.getAt?_of_chain hchain hv⟩

theorem unary {operator : Token} {operand : Expr}
    (h : Lawful ⟨n, .expr x (.unary operator operand), m⟩) :
    operator.kind ∈ Operator.unaries :=
  h.copied.choose_spec.task.operates.self

theorem binary {left right : Expr} {operator : Token}
    (h : Lawful ⟨n, .expr x (.binary left operator right), m⟩) :
    operator.kind ∈ Operator.binaries :=
  h.copied.choose_spec.task.operates.self

theorem makeClass {name : Token} {parent : Option Class} {methods : List FunctionDecl}
    (h : Lawful ⟨n, .makeClass name parent methods, m⟩) :
    ∃ k, Eval.makeClass name parent methods m = .done () k := by
  obtain ⟨⟨w, p, m', hm, -⟩, -⟩ := h
  exact makeClass_done hm.frame_lt name parent methods

theorem arguments {closure : Closure} {arguments : List Value}
    (h : Lawful ⟨n, .apply closure arguments, m⟩) :
    arguments.length = closure.decl.params.length := by
  obtain ⟨⟨w, p, m', hm, hlength, -⟩, -⟩ := h
  exact hlength

/-- The method that `super` names may be missing, but nothing else is. -/
theorem fault_of_super {o : Occurrence} {method : Token} {e : RuntimeError} {k : Machine}
    (h : Lawful ⟨n, .super o method, m⟩)
    (hfailed : Eval.superMethod o method m = .failed (.runtime e) k) :
    e.fault = .undefinedProperty method.lexeme := by
  obtain ⟨d, parent, address, c, hd, hparent, hthis⟩ := h.super
  rw [superMethod_of_distance hd hparent hthis] at hfailed
  unfold Eval.inherited at hfailed
  cases hmethod : parent.method? method.lexeme with
  | none =>
    simp only [hmethod] at hfailed
    injection hfailed with hfailed
    injection hfailed with hfailed
    exact hfailed ▸ rfl
  | some found =>
    simp only [hmethod] at hfailed
    exact nomatch hfailed

end Visit.Lawful

/-! ## Runs -/

theorem Starts.program {u v : Visit} (h : Starts u v) {rest : List Stmt}
    (hv : v.task = .program rest) : ∃ s, u.task = .program (s :: rest) := by
  cases h with
  | programTail _ =>
    injection hv with hv
    exact hv ▸ ⟨_, rfl⟩
  | _ => exact nomatch hv

/-- A program comes to no programs but its own rests. -/
theorem Visits.program {u v : Visit} (h : Visits u v) {rest statements : List Stmt}
    (hv : v.task = .program rest) (hu : u.task = .program statements) : rest <:+ statements := by
  induction h generalizing rest with
  | refl =>
    injection hv.symm.trans hu with hrest
    exact hrest ▸ List.suffix_refl _
  | tail _ hstep ih =>
    obtain ⟨s, hs⟩ := hstep.program hv
    exact (List.suffix_cons s rest).trans (ih hs)

namespace Session

variable {s : Session} {budget : Nat} {source : String} {v : Visit}

theorem Reachable.lawful (hs : s.Reachable) (hv : s.Visits budget source v) : v.Lawful := by
  have hholds : s.machine.Holds .written :=
    hs.holds fun _ _ _ haccepted _ => Reading.written_of_accepted haccepted
  have hsource : Brings Discipline.written.code source s.nextId := fun _ haccepted _ =>
    Reading.written_of_accepted haccepted
  obtain ⟨distances, -, hcopied⟩ := hv.copied hholds hsource
  exact ⟨hs.sound hv, _, hcopied⟩

/-- No statement of a program that is run returns. -/
theorem Visits.not_returned {t : Stmt} {rest : List Stmt} (hv : s.Visits budget source v)
    (ht : v.task = .program (t :: rest)) (n : Nat) (m : Machine) (value : Value) (k : Machine) :
    Eval.stmt n t m ≠ .done (.returned value) k := by
  obtain ⟨distances, -, hresolve, hv⟩ := hv
  have hrest := LoxLang.Visits.program hv ht rfl
  exact not_returned_of_resolve hresolve (hrest.subset (.head _)) n m value k

/-- Whatever a run comes to, it does not go wrong by itself. -/
theorem Reachable.safe (hs : s.Reachable) (hv : s.Visits budget source v) : v.Safe := by
  have h := hs.lawful hv
  obtain ⟨n, task, m⟩ := v
  cases task with
  | expr x e =>
    cases e with
    | unary operator operand =>
      exact fun value hinvalid => nomatch Operator.isInternal_unary h.unary hinvalid
    | binary left operator right =>
      exact fun value value' hinvalid => nomatch Operator.isInternal_binary h.binary hinvalid
    | this keyword => exact h.this
    | _ => trivial
  | program statements =>
    cases statements with
    | nil => trivial
    | cons t rest => exact hv.not_returned rfl n m
  | super keyword method => exact h.super
  | makeClass name parent methods => exact h.makeClass
  | apply closure arguments => exact h.arguments
  | _ => trivial

/-- A name that is looked up is no reserved word, or it is found. -/
theorem Reachable.named (hs : s.Reachable) {n : Nat} {o : Occurrence} {m : Machine}
    (hv : s.Visits budget source ⟨n, .read o, m⟩) :
    IsName o.name ∨ ∃ value, Eval.lookUp o m = .done value m := by
  obtain ⟨distances, herrors, hresolve, hv⟩ := hv
  rcases hv.cases_tail with h | ⟨u, hu, hstep⟩
  · exact nomatch h
  have hu : s.Visits budget source u := ⟨distances, herrors, hresolve, hu⟩
  have h := hs.lawful hu
  obtain ⟨known, hcode⟩ := h.copied
  cases hstep with
  | var => exact .inl (hcode.task.formed.names _ (.head _))
  | this =>
    obtain ⟨address, c, hfound⟩ := h.this
    exact .inr ⟨_, hfound⟩
  | superclass => exact .inl (hcode.task.formed.names _ (.tail _ (.head _)))

/-- The failures that are traced to where they arise are those of names that a program may have. -/
theorem Reachable.fails (hs : s.Reachable) (hv : s.Visits budget source v) {e : RuntimeError}
    (hfails : v.FailsWith e) :
    e.fault.isInternal = false ∧
      ∀ x, e.fault = .undefinedVariable x → x ≠ "this" ∧ x ≠ "super" := by
  have h := hs.lawful hv
  obtain ⟨n, task, m⟩ := v
  cases task with
  | read o =>
    obtain ⟨k, hfailed⟩ := hfails
    obtain ⟨-, rfl⟩ := h.sound.read_failed hfailed
    rcases hs.named hv with hname | ⟨value, hdone⟩
    · refine ⟨rfl, fun x hx => ?_⟩
      obtain rfl := RuntimeFault.undefinedVariable.inj hx
      exact ⟨hname.ne_this, hname.ne_super⟩
    · exact nomatch hdone.symm.trans hfailed
  | write x target value =>
    obtain ⟨k, hfailed⟩ := hfails
    obtain ⟨-, rfl⟩ := h.sound.write_failed hfailed
    obtain ⟨known, -, -, hbinds, -⟩ := h.copied
    refine ⟨rfl, fun y hy => ?_⟩
    obtain rfl := RuntimeFault.undefinedVariable.inj hy
    refine ⟨fun hthis => ?_, fun hsuper => ?_⟩
    · obtain ⟨address, c, h⟩ := (hbinds .nil).1 hthis
      exact nomatch h
    · obtain ⟨c, h⟩ := (hbinds .nil).2 hsuper
      exact nomatch h
  | super keyword method =>
    obtain ⟨k, hfailed⟩ := hfails
    rw [h.fault_of_super hfailed]
    exact ⟨rfl, nofun⟩
  | makeClass name parent methods =>
    obtain ⟨k, hfailed⟩ := hfails
    obtain ⟨k', hdone⟩ := h.makeClass
    exact nomatch hdone.symm.trans hfailed
  | expr x t =>
    cases t with
    | unary operator operand =>
      obtain ⟨value, hfault⟩ := hfails
      refine ⟨Operator.isInternal_unary h.unary hfault, fun y hy => ?_⟩
      have hmissing := Operator.isMissingName_unary operator.kind value _ hfault
      exact nomatch hy ▸ hmissing
    | binary left operator right =>
      obtain ⟨value, value', hfault⟩ := hfails
      refine ⟨Operator.isInternal_binary h.binary hfault, fun y hy => ?_⟩
      have hmissing := Operator.isMissingName_binary operator.kind value value' _ hfault
      exact nomatch hy ▸ hmissing
    | _ => exact hfails.elim
  | _ => exact hfails.elim

/-- In every session that comes of actions of its host, what the run of an accepted source comes to
does not go wrong by itself: operators are known, `this` is an object wherever it is read, `super`
is bound one scope outside of it to a class, a class that is declared gets its value, a function
gets as many arguments as it has parameters, and no statement of the program returns. So no run
stops with an internal fault, or because `this` or `super` is not defined. -/
theorem never_goes_wrong (hs : s.Reachable) (budget : Nat) (source : String) :
    (∀ v, s.Visits budget source v → v.Safe) ∧
      ∀ e, (s.run budget source).1 = .stopped (.runtime e) →
        e.fault.isInternal = false ∧ e.fault ≠ .undefinedVariable "this" ∧
          e.fault ≠ .undefinedVariable "super" := by
  refine ⟨fun v hv => hs.safe hv, fun e hstopped => ?_⟩
  by_cases htraced : e.fault.isTraced
  · obtain ⟨v, hv, hfails⟩ := blames_run hstopped htraced
    obtain ⟨hinternal, hname⟩ := hs.fails hv hfails
    exact ⟨hinternal, fun h => (hname _ h).1 rfl, fun h => (hname _ h).2 rfl⟩
  · obtain ⟨hmissing, hinternal⟩ : e.fault.isMissingName = false ∧ e.fault.isInternal = false := by
      simpa [RuntimeFault.isTraced] using htraced
    have hname (x : String) : e.fault ≠ .undefinedVariable x := fun h => by
      rw [h] at hmissing
      cases hmissing
    exact ⟨hinternal, hname _, hname _⟩

/-- In `class A{}-A;` the class is made, and the run stops since a class is no number. -/
theorem never_goes_wrong_start :
    (start .unlimited 0).Reachable ∧
      (∃ v name, (start .unlimited 0).Visits 9 "class A{}-A;" v ∧ v.task = .makeClass name none [] ∧
        v.Safe) ∧
      ((start .unlimited 0).run 9 "class A{}-A;").1 = .stopped (.runtime ⟨1, .operandNotNumber⟩) ∧
        RuntimeFault.operandNotNumber.isInternal = false := by
  have hs : (start .unlimited 0).Reachable := .start _ _
  have hstatements : (Reading.ofSource "class A{}-A;" 0).statements =
      [.classDecl ⟨.identifier, "A", 1⟩ none [],
        .expression (.unary ⟨.mark .minus, "-", 1⟩ (.var ⟨0, ⟨.identifier, "A", 1⟩⟩))] := by
    rw [Reading.ofSource, scan_eq]
    cbv
  have hrun : ((start .unlimited 0).run 9 "class A{}-A;").1 =
    .stopped (.runtime ⟨1, .operandNotNumber⟩) := by decide +kernel
  let m := (Machine.start .unlimited 0).learn ∅
  have hv : (start .unlimited 0).Visits 9 "class A{}-A;"
      ⟨8, .makeClass ⟨.identifier, "A", 1⟩ none [], m⟩ := by
    refine ⟨∅, by decide +kernel, ?_, ?_⟩
    · change resolve (Reading.ofSource "class A{}-A;" 0).statements = _
      rw [hstatements]
      rfl
    · change LoxLang.Visits ⟨9, .program (Reading.ofSource "class A{}-A;" 0).statements, m⟩ _
      rw [hstatements]
      exact .head .programHead (.head (.classDecl rfl) .refl)
  obtain ⟨hsafe, hfault⟩ := never_goes_wrong hs 9 "class A{}-A;"
  exact ⟨hs, ⟨_, _, hv, rfl, hsafe _ hv⟩, hrun, (hfault _ hrun).1⟩

end Session

end LoxLang
