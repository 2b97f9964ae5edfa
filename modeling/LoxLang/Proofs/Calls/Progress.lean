import Mathlib
import LoxLang.Proofs.Calls.Restoring
import LoxLang.Proofs.Lookups.Visits
import LoxLang.Proofs.Scanning.Items
import LoxLang.Proofs.Sessions.Actions
import LoxLang.Proofs.Values.Endings

/-!
# Calls in progress

A call is in progress while the body runs that it has started. The machine counts these calls, and
refuses the one that would be too many.

1. `Starts.depth`: a call that starts a body is counted, and nothing else is.
2. `InProgress.depth`, `Moment.depth`: in the course of a run the count is right, and within bounds.
3. `Eval.overflows_iff`: which calls are refused for their depth.
4. `Session.calls_balanced`: all runs of all sessions.
-/

namespace LoxLang

/-! ## The end of a visit -/

/-- The machine at the end of a visit, however it ends. -/
def Visit.after (v : Visit) : Machine :=
  match v.task with
  | .expr _ e => (Eval.expr v.budget e v.machine).machine
  | .exprs _ es => (Eval.exprs v.budget es v.machine).machine
  | .stmt s => (Eval.stmt v.budget s v.machine).machine
  | .stmts body => (Eval.stmts v.budget body v.machine).machine
  | .loop condition body => (Eval.loop v.budget condition body v.machine).machine
  | .program statements => (Eval.program v.budget statements v.machine).machine
  | .read o => (Eval.lookUp o v.machine).machine
  | .write _ target value => (Eval.assign target value v.machine).machine
  | .super keyword method => (Eval.superMethod keyword method v.machine).machine
  | .call callee line arguments =>
    (Eval.call (Eval.stmts v.budget) callee line arguments v.machine).machine
  | .apply closure arguments =>
    (Eval.apply (Eval.stmts v.budget) closure arguments v.machine).machine
  | .construct c arguments => (Eval.construct (Eval.stmts v.budget) c arguments v.machine).machine
  | .makeClass name parent methods => (Eval.makeClass name parent methods v.machine).machine

/-- Every visit ends in the scope in which it began, with as many calls in progress. -/
theorem Visit.samePlace_after (v : Visit) : v.machine.SamePlace v.after := by
  obtain ⟨n, task, m⟩ := v
  have h := Eval.restoring n
  cases task with
  | expr x e => exact h.expr e m
  | exprs x es => exact h.exprs es m
  | stmt s => exact h.stmt s m
  | stmts body => exact h.stmts body m
  | loop condition body => exact h.loop condition body m
  | program statements => exact Eval.restores_program n statements m
  | read o => exact Eval.Restores.lookUp o m
  | write x target value => exact Eval.Restores.assign target value m
  | super keyword method => exact Eval.Restores.superMethod keyword method m
  | call callee line arguments => exact Eval.Restores.call h.stmts callee line arguments m
  | apply closure arguments => exact Eval.Restores.apply h.stmts closure arguments m
  | construct c arguments => exact Eval.Restores.construct h.stmts c arguments m
  | makeClass name parent methods => exact Eval.Restores.makeClass name parent methods m

/-! ## What calls start -/

/-- How many calls begin with a task. -/
def Task.calls : Task → Nat
  | .call _ _ _ => 1
  | _ => 0

theorem Eval.Restores.depth_of_done {α : Type} {step : Eval α} (h : step.Restores) {m n : Machine}
    {a : α} (hrun : step m = .done a n) : n.depth = m.depth := by
  have hdepth := (h m).depth
  rwa [hrun] at hdepth

/-- A call that starts a body is counted, and nothing else is. -/
theorem Starts.depth {u v : Visit} (h : Starts u v) :
    v.machine.depth = u.machine.depth + u.task.calls := by
  -- What has run before the new visit starts has restored the number of calls.
  cases h with
  | binaryRight hrun | logicalRight hrun | assignTarget hrun | arguments hrun | setValue hrun
  | others hrun | ifThenBranch hrun | ifElseThen hrun | ifElseElse hrun | loopBody hrun =>
    exact ((Eval.restoring _).expr _).depth_of_done hrun
  | call hcallee harguments =>
    exact (((Eval.restoring _).exprs _).depth_of_done harguments).trans
      (((Eval.restoring _).expr _).depth_of_done hcallee)
  | block hrun | apply hrun =>
    injection hrun with _ hm
    subst hm
    rfl
  | classDecl hrun => exact (Eval.Restores.superclass? _).depth_of_done hrun
  | tail hrun | programTail hrun => exact ((Eval.restoring _).stmt _).depth_of_done hrun
  | loopAgain hcondition _ hbody =>
    exact (((Eval.restoring _).stmt _).depth_of_done hbody).trans
      (((Eval.restoring _).expr _).depth_of_done hcondition)
  | construct hobject _ hbind =>
    exact ((Eval.Restores.bindThis _ _).depth_of_done hbind).trans
      ((Eval.Restores.newObject _).depth_of_done hobject)
  | _ => rfl

/-- A body is started only while there is room for one more call. -/
theorem Starts.depth_le {u v : Visit} (h : Starts u v) (hu : u.machine.depth ≤ Machine.maxDepth) :
    v.machine.depth ≤ Machine.maxDepth := by
  have hdepth := h.depth
  cases h with
  | callFunction _ hroom | callClass _ hroom => exact hroom
  | _ => exact hdepth ▸ hu

/-! ## The course of a visit -/

/-- The second visit comes in the course of the first one, inside so many calls that are in
progress: those on the way from the one to the other.

* `refl`: a visit is in its own course, inside no call.
* `tail`: so is what comes next on the way, inside one call more if what starts it is a call. -/
inductive InProgress (u : Visit) : Nat → Visit → Prop
  | refl : InProgress u 0 u
  | tail {k : Nat} {v w : Visit} :
      InProgress u k v → Starts v w → InProgress u (k + v.task.calls) w

theorem InProgress.depth {u v : Visit} {k : Nat} (h : InProgress u k v) :
    v.machine.depth = u.machine.depth + k := by
  induction h with
  | refl => rfl
  | tail _ hstarts ih => rw [hstarts.depth, ih, Nat.add_assoc]

theorem InProgress.depth_le {u v : Visit} {k : Nat} (h : InProgress u k v)
    (hu : u.machine.depth ≤ Machine.maxDepth) : v.machine.depth ≤ Machine.maxDepth := by
  induction h with
  | refl => exact hu
  | tail _ hstarts ih => exact hstarts.depth_le ih

/-- A machine in the course of a visit, with the number of the calls that are in progress:

* `before`: where anything starts that the visit comes to;
* `after`: where it has ended, in whatever way; the calls around it are those around its start;
* `host`: while a function of the host runs. It starts nothing, but its call is counted and in
  progress. Such a call has as many arguments as there should be, and room for one more. -/
inductive Moment (u : Visit) : Nat → Machine → Prop
  | before {k : Nat} {v : Visit} : InProgress u k v → Moment u k v.machine
  | after {k : Nat} {v : Visit} : InProgress u k v → Moment u k v.after
  | host {k n index line : Nat} {arguments : List Value} {m : Machine} :
      InProgress u k ⟨n, .call (.native index) line arguments, m⟩ →
      Eval.arity? (.native index) m = .done (some arguments.length) m →
      m.depth < Machine.maxDepth → Moment u (k + 1) { m with depth := m.depth + 1 }

theorem Moment.depth {u : Visit} {k : Nat} {m : Machine} (h : Moment u k m) :
    m.depth = u.machine.depth + k := by
  cases h with
  | before h => exact h.depth
  | after h => exact (Visit.samePlace_after _).depth.trans h.depth
  | host h => exact congrArg Nat.succ h.depth

theorem Moment.depth_le {u : Visit} {k : Nat} {m : Machine} (h : Moment u k m)
    (hu : u.machine.depth ≤ Machine.maxDepth) : m.depth ≤ Machine.maxDepth := by
  cases h with
  | before h => exact h.depth_le hu
  | after h => exact (Visit.samePlace_after _).depth ▸ h.depth_le hu
  | host _ _ hroom => exact hroom

/-! ## Calls that are refused -/

namespace Eval

variable {run : List Stmt → Eval Completion} {callee : Value} {line : Nat} {arguments : List Value}
  {m : Machine}

/-- What a call does once it is counted. -/
def body (run : List Stmt → Eval Completion) (line : Nat) (arguments : List Value) :
    (callee : Value) → Eval Value
  | .native index => native index line arguments
  | .function _ closure => apply run closure arguments
  | .classValue c => construct run c arguments
  | _ => Step.fail line .notCallable

/-- A call begins by asking for the arity; if there is one, its number of arguments is checked next,
and the number of calls in progress last. -/
theorem call_of_arity {arity : Nat} (h : arity? callee m = .done (some arity) m) :
    call run callee line arguments m =
      if arguments.length ≠ arity then
        .failed (.runtime ⟨line, .wrongArity arity arguments.length⟩) m
      else if Machine.maxDepth ≤ m.depth then .failed (.runtime ⟨line, .stackOverflow⟩) m
      else counted (body run line arguments callee) m := by
  unfold call
  rw [Step.bind_of_done h]
  change (if arguments.length ≠ arity then _ else _ : Eval Value) m = _
  split
  · rfl
  · split <;> rfl

theorem arity?_done (callee : Value) (m : Machine) :
    ∃ found, arity? callee m = .done found m := by
  cases callee with
  | _ => exact ⟨_, rfl⟩

/-- A counted step fails where the step itself does. -/
theorem failed_of_counted {α : Type} {step : Eval α} {failure : Failure} {n : Machine}
    (h : counted step m = .failed failure n) :
    ∃ k, step { m with depth := m.depth + 1 } = .failed failure k := by
  unfold counted at h
  cases hstep : step { m with depth := m.depth + 1 } with
  | failed failure' k =>
    rw [hstep] at h
    injection h with h
    exact ⟨k, congrArg (Ending.failed · k) h⟩
  | _ =>
    rw [hstep] at h
    exact nomatch h

/-- Where bodies use up their budget at once, no call fails for its depth once it is counted: a
function of the host has faults of its own. -/
theorem body_ne_overflow (n : Machine) :
    body (fun _ => Step.exhausted) line arguments callee m ≠
      .failed (.runtime ⟨line, .stackOverflow⟩) n := by
  intro h
  cases callee with
  | native index =>
    change native index line arguments m = _ at h
    unfold native at h
    rw [Step.bind_of_done (show Step.look (fun m : Machine => m.natives[index]?.map Native.body) m =
      .done (m.natives[index]?.map Native.body) m from rfl)] at h
    generalize m.natives[index]?.map Native.body = found at h
    cases found with
    | none => exact nomatch h
    | some host =>
      cases host with
      | clock => exact nomatch h
      | host f =>
        change Step.lift line ((f arguments).mapError .host) m = _ at h
        cases hresult : f arguments with
        | _ =>
          rw [hresult] at h
          exact nomatch h
  | function id closure => exact nomatch h
  | classValue c =>
    change construct _ c arguments m = _ at h
    unfold construct at h
    rw [Step.bind_of_done (show newObject c m = .done _ _ from rfl)] at h
    cases hinitializer : c.initializer? with
    | _ =>
      rw [hinitializer] at h
      exact nomatch h
  | _ => exact nomatch h

/-- A call is refused for its depth, whatever its body would do, just if the value can be called
with so many arguments and as many calls as there may be are in progress. -/
theorem overflows_iff :
    (∀ run, call run callee line arguments m = .failed (.runtime ⟨line, .stackOverflow⟩) m) ↔
      arity? callee m = .done (some arguments.length) m ∧ Machine.maxDepth ≤ m.depth := by
  constructor
  · intro h
    have h := h fun _ => Step.exhausted
    obtain ⟨found, harity⟩ := arity?_done callee m
    cases found with
    | none =>
      unfold call at h
      rw [Step.bind_of_done harity] at h
      exact nomatch h
    | some arity =>
      rw [call_of_arity harity] at h
      split at h
      · exact nomatch h
      · next hlength =>
        obtain rfl : arguments.length = arity := not_not.1 hlength
        split at h
        · next hdepth => exact ⟨harity, hdepth⟩
        · obtain ⟨n, hbody⟩ := failed_of_counted h
          exact absurd hbody (body_ne_overflow n)
  · rintro ⟨harity, hdepth⟩ run
    rw [call_of_arity harity, if_neg (not_not.2 rfl), if_pos hdepth]

end Eval

/-! ## Runs -/

namespace Session

variable {s : Session} {budget : Nat} {source : String}

/-- The visit that the run of an accepted source consists of. -/
def Begins (s : Session) (budget : Nat) (source : String) (u : Visit) : Prop :=
  let reading := Reading.ofSource source s.nextId
  ∃ distances, reading.errors = [] ∧ resolve reading.statements = .ok distances ∧
    u = ⟨budget, .program reading.statements, s.machine.learn distances⟩

/-- A run leaves the machine alone or is the visit of a program. -/
theorem machine_run (s : Session) (budget : Nat) (source : String) :
    (s.run budget source).2.machine = s.machine ∨
      ∃ u, s.Begins budget source u ∧ (s.run budget source).2.machine = u.after := by
  simp only [run, runReading]
  split
  · next hempty =>
    split
    · exact .inl rfl
    · next distances hresolve =>
      refine .inr ⟨_, ⟨distances, List.isEmpty_iff.1 hempty, hresolve, rfl⟩, ?_⟩
      change _ = (Eval.program budget _ (s.machine.learn distances)).machine
      split <;> next hrun => rw [hrun]; rfl
  · exact .inl rfl

theorem Begins.samePlace {u : Visit} (h : s.Begins budget source u) :
    s.machine.SamePlace u.machine := by
  obtain ⟨distances, -, -, rfl⟩ := h
  exact ⟨rfl, rfl⟩

/-- A run of any result ends in the scope in which it began, with as many calls in progress. -/
theorem samePlace_run (s : Session) (budget : Nat) (source : String) :
    s.machine.SamePlace (s.run budget source).2.machine := by
  rcases machine_run s budget source with h | ⟨u, hu, h⟩
  · rw [h]
    exact .refl _
  · rw [h]
    exact hu.samePlace.trans u.samePlace_after

/-- Between two runs a session is in the globals, and no call is in progress. -/
theorem Reachable.atRest (h : s.Reachable) :
    s.machine.scope = Machine.globals ∧ s.machine.depth = 0 := by
  induction h with
  | start sink clock => exact ⟨rfl, rfl⟩
  | @act a s _ ih =>
    cases a with
    | run budget source =>
      obtain ⟨hscope, hdepth⟩ := samePlace_run s budget source
      exact ⟨hscope.trans ih.1, hdepth.trans ih.2⟩
    | offer name host => exact ih
    | drain => exact ih

/-- Whatever is evaluated, on whatever machine and however it ends, scope and number of calls are
as before. So a session counts exactly the calls that are in progress, which are never too many, a
call is refused just for being one too many, and every run ends in the globals with all calls
over. -/
theorem calls_balanced :
    (∀ n, Eval.Restoring n ∧
      (∀ scope body, (Eval.within scope (Eval.stmts n body)).Restores) ∧
      ∀ callee line arguments, (Eval.call (Eval.stmts n) callee line arguments).Restores) ∧
    ∀ {s : Session}, s.Reachable → ∀ budget source,
      (∀ u, s.Begins budget source u →
        (∀ k m, Moment u k m → m.depth = k ∧ k ≤ Machine.maxDepth) ∧
        ∀ k n callee line arguments m, InProgress u k ⟨n, .call callee line arguments, m⟩ →
          ((∀ run, Eval.call run callee line arguments m =
              .failed (.runtime ⟨line, .stackOverflow⟩) m) ↔
            Eval.arity? callee m = .done (some arguments.length) m ∧ k = Machine.maxDepth)) ∧
      (s.run budget source).2.machine.scope = Machine.globals ∧
      (s.run budget source).2.machine.depth = 0 := by
  refine ⟨fun n => ?_, fun {s} hs budget source => ⟨fun u hu => ?_, ?_⟩⟩
  · have h := Eval.restoring n
    exact ⟨h, fun scope body => (h.stmts body).within scope, fun callee line arguments =>
      .call h.stmts callee line arguments⟩
  · have hzero : u.machine.depth = 0 := hu.samePlace.depth.trans hs.atRest.2
    have hbound : u.machine.depth ≤ Machine.maxDepth := hzero ▸ Nat.zero_le _
    constructor
    · intro k m h
      have hdepth : m.depth = k := by rw [h.depth, hzero, Nat.zero_add]
      exact ⟨hdepth, hdepth ▸ h.depth_le hbound⟩
    · intro k n callee line arguments m h
      have hdepth : m.depth = k := by simpa [hzero] using h.depth
      have hle : m.depth ≤ Machine.maxDepth := h.depth_le hbound
      rw [Eval.overflows_iff, ← hdepth]
      exact and_congr_right fun _ => ⟨Nat.le_antisymm hle, fun h => h ▸ Nat.le_refl _⟩
  · obtain ⟨hscope, hdepth⟩ := samePlace_run s budget source
    exact ⟨hscope.trans hs.atRest.1, hdepth.trans hs.atRest.2⟩

/-- In `clock();` the clock is read with one call in progress, which is not refused. -/
theorem calls_balanced_start :
    (start .unlimited 0).Reachable ∧
      ∃ u n m, (start .unlimited 0).Begins 9 "clock();" u ∧
        InProgress u 0 ⟨n, .call (.native 0) 1 [], m⟩ ∧
        Moment u 1 { m with depth := m.depth + 1 } ∧ m.depth + 1 = 1 ∧
        (¬ ∀ run, Eval.call run (.native 0) 1 [] m =
          .failed (.runtime ⟨1, .stackOverflow⟩) m) ∧
        ((start .unlimited 0).run 9 "clock();").2.machine.depth = 0 := by
  have hs : (start .unlimited 0).Reachable := .start _ _
  have hstatements : (Reading.ofSource "clock();" 0).statements =
      [.expression
        (.call (.var ⟨0, ⟨.identifier, "clock", 1⟩⟩) ⟨.mark .rightParen, ")", 1⟩ [])] := by
    rw [Reading.ofSource, scan_eq]
    cbv
  let m := (Machine.start .unlimited 0).learn ∅
  let u : Visit := ⟨9, .program (Reading.ofSource "clock();" 0).statements, m⟩
  have hu : (start .unlimited 0).Begins 9 "clock();" u := by
    refine ⟨∅, by decide +kernel, ?_, rfl⟩
    change resolve (Reading.ofSource "clock();" 0).statements = _
    rw [hstatements]
    rfl
  have hcall : InProgress u 0 ⟨7, .call (.native 0) 1 [], m⟩ := by
    have hhead : InProgress u 0 ⟨9, .stmt _, m⟩ :=
      InProgress.tail .refl (by
        change Starts ⟨9, .program (Reading.ofSource "clock();" 0).statements, m⟩ _
        rw [hstatements]
        exact .programHead)
    exact (hhead.tail .expression).tail (.call rfl rfl)
  have hhost : Moment u 1 { m with depth := m.depth + 1 } := .host hcall rfl (by decide)
  obtain ⟨hrun, -, hend⟩ := calls_balanced.2 hs 9 "clock();"
  obtain ⟨hmoment, hrefused⟩ := hrun u hu
  refine ⟨hs, u, 7, m, hu, hcall, hhost, (hmoment 1 _ hhost).1, fun h => ?_, hend⟩
  exact absurd ((hrefused 0 7 (.native 0) 1 [] m hcall).1 h).2 (by decide)

end Session

end LoxLang
