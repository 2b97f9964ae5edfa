import LoxLang.Proofs.Budgets.Larger
import LoxLang.Proofs.Budgets.LoopFree
import LoxLang.Proofs.Splitting.Readings

/-!
# Sessions without loops

In a session whose sources have no loops, every run comes to its end, whatever functions, methods
and initializers call each other in it, those of earlier sources included. A budget only has to be
large enough for that, and a larger one changes nothing.

1. `Session.run_ends`: a single run.
2. `Session.loop_free_terminates`: all sessions.
-/

namespace LoxLang

/-- There is no loop in what is read of a source. -/
def loopFree (source : String) : Bool :=
  Stmt.allLoopFree (Reading.ofSource source 0).statements

/-- A source without loops has none wherever its numbers begin. -/
theorem loopFree_ofSource {source : String} (h : loopFree source) (first : Nat) :
    Stmt.allLoopFree (Reading.ofSource source first).statements := by
  have hreading := Reading.ofSource_renumbered source 0 first
  rw [Nat.zero_add] at hreading
  rw [hreading, Stmt.allLoopFree_moveAll]
  exact h

namespace Action

/-- There is no loop in a source that is run. -/
def loopFree : Action → Bool
  | .run _ source => LoxLang.loopFree source
  | .offer _ _ | .drain => true

/-- The same action with another budget. -/
def within (budget : Nat) : Action → Action
  | .run _ source => .run budget source
  | .offer name host => .offer name host
  | .drain => .drain

theorem loopFree_within {a : Action} (h : a.loopFree) (budget : Nat) :
    (a.within budget).loopFree := by
  cases a with
  | _ => exact h

end Action

namespace Session

variable {s : Session} {source : String}

/-- No function in a session has a loop, and all are within some bound. -/
def LoopFree (s : Session) : Prop :=
  ∃ bound, s.machine.Holds (.bounded bound)

theorem LoopFree.start (sink : Sink) (clock : Clock) : (start sink clock).LoopFree :=
  ⟨0, .start _ sink clock⟩

/-- With a larger bound, a source is within it. -/
theorem LoopFree.brings (hs : s.LoopFree) (hsource : loopFree source) :
    ∃ bound, s.machine.Holds (.bounded bound) ∧
      Brings (Code.Bounded bound) source s.nextId := by
  obtain ⟨bound, hs⟩ := hs
  let size := sizeOf (Reading.ofSource source s.nextId).statements
  have hle {c : Code} (hc : c.Bounded bound) : c.Bounded (max bound size) :=
    ⟨hc.loopFree, Nat.le_trans hc.size (Nat.le_max_left _ _)⟩
  refine ⟨max bound size, hs.mono ⟨hle, fun _ => trivial⟩, ?_⟩
  intro distances _ _ t ht
  exact ⟨Stmt.allLoopFree_iff.1 (loopFree_ofSource hsource _) t ht,
    Nat.le_trans (Code.sizeOf_stmt_of_mem ht) (Nat.le_max_right _ _)⟩

theorem LoopFree.act (hs : s.LoopFree) (a : Action) (ha : a.loopFree) : (s.act a).2.LoopFree := by
  cases a with
  | run budget source =>
    obtain ⟨bound, hholds, hbrings⟩ := hs.brings ha
    exact ⟨bound, holds_run hholds hbrings budget⟩
  | offer name host => exact ⟨hs.choose, holds_defineNative hs.choose_spec name host⟩
  | drain => exact ⟨hs.choose, holds_drain hs.choose_spec⟩

/-- A program without loops ends within a budget for its statements and one body for each call that
there may be at a time. -/
theorem program_ends {bound budget : Nat} (hs : s.machine.Holds (.bounded bound))
    (hdepth : s.machine.depth = 0) (hsource : Brings (Code.Bounded bound) source s.nextId)
    (hbudget : sizeOf (Reading.ofSource source s.nextId).statements + Machine.maxDepth * bound ≤
      budget) {u : Visit} (hu : s.Begins budget source u) (m : Machine) :
    Eval.program budget (Reading.ofSource source s.nextId).statements u.machine ≠
      .exhausted m := by
  obtain ⟨distances, herrors, hresolve, rfl⟩ := hu
  intro hspent
  obtain ⟨v, hv, hspent⟩ := (blames_program _ _ _).spent m hspent
  have hvisits : s.Visits budget source _ := ⟨distances, herrors, hresolve, .refl⟩
  obtain ⟨_, -, hcopied⟩ := hvisits.copied hs hsource
  have hafford : Visit.Affordable bound
      ⟨budget, .program (Reading.ofSource source s.nextId).statements,
        s.machine.learn distances⟩ := by
    have hleft : (s.machine.learn distances).callsLeft = Machine.maxDepth := by
      simp [Machine.callsLeft, Machine.learn, hdepth]
    unfold Visit.Affordable
    rw [hleft]
    exact hbudget
  exact (hafford.visits hv hcopied).not_spent (hcopied.visits rfl hv) hspent

/-- A run of a source without loops ends, in the same way whatever more there is in its budget. -/
theorem run_ends (hs : s.Reachable) (hcode : s.LoopFree) (hsource : loopFree source) :
    ∃ enough result after, result ≠ .unfinished ∧
      ∀ budget, enough ≤ budget → s.run budget source = (result, after) := by
  obtain ⟨bound, hholds, hbrings⟩ := hcode.brings hsource
  by_cases haccepted : ∃ distances, (Reading.ofSource source s.nextId).errors = [] ∧
      resolve (Reading.ofSource source s.nextId).statements = .ok distances
  · obtain ⟨distances, herrors, hresolve⟩ := haccepted
    let enough := sizeOf (Reading.ofSource source s.nextId).statements + Machine.maxDepth * bound
    have hends (m : Machine) : Eval.program enough _ (s.machine.learn distances) ≠ .exhausted m :=
      program_ends hholds hs.atRest.2 hbrings (Nat.le_refl _) ⟨distances, herrors, hresolve, rfl⟩ m
    have hended : (s.run enough source).1 ≠ .unfinished := by
      unfold run
      rw [runReading_accepted s enough herrors hresolve]
      generalize Eval.program enough _ (s.machine.learn distances) = ending at hends ⊢
      cases ending with
      | done value m => exact nofun
      | failed failure m => exact nofun
      | exhausted m => exact absurd rfl (hends m)
    exact ⟨enough, _, _, hended, fun _ hle => s.run_of_le source hle hended⟩
  · obtain ⟨errors, hrejected⟩ := rejects fun distances herrors hresolve =>
      haccepted ⟨distances, herrors, hresolve⟩
    exact ⟨0, .rejected errors, _, nofun, fun budget _ => hrejected s budget⟩

/-- Whatever a host does, if it is without loops then it ends; a run may use up its budget only if
that is too small. -/
theorem act_ends (hs : s.Reachable) (hcode : s.LoopFree) {a : Action} (ha : a.loopFree) :
    ∃ enough result after, result ≠ some .unfinished ∧
      ∀ budget, enough ≤ budget → s.act (a.within budget) = (result, after) := by
  cases a with
  | run _ source =>
    obtain ⟨enough, result, after, hends, hrun⟩ := run_ends hs hcode ha
    refine ⟨enough, some result, after, fun h => hends (Option.some.inj h), fun budget hle => ?_⟩
    change (some (s.run budget source).1, (s.run budget source).2) = _
    rw [hrun budget hle]
  | offer name host => exact ⟨0, none, _, nofun, fun _ _ => rfl⟩
  | drain => exact ⟨0, none, _, nofun, fun _ _ => rfl⟩

/-- From a session that holds no loops on, actions without loops end, one after another. -/
theorem trace_ends (hs : s.Reachable) (hcode : s.LoopFree) {actions : List Action}
    (hactions : ∀ a ∈ actions, a.loopFree) :
    ∃ enough events, (∀ event ∈ events, event.1 ≠ some .unfinished) ∧
      ∀ budget, enough ≤ budget → trace (actions.map (Action.within budget)) s = events := by
  induction actions generalizing s with
  | nil => exact ⟨0, [], nofun, fun _ _ => rfl⟩
  | cons a rest ih =>
    obtain ⟨ha, hrest⟩ := List.forall_mem_cons.1 hactions
    obtain ⟨first, result, after, hresult, hact⟩ := act_ends hs hcode ha
    have hafter : after = (s.act (a.within first)).2 := by rw [hact first (Nat.le_refl _)]
    have hreachable : after.Reachable := hafter ▸ hs.act _
    have hholds : after.LoopFree := hafter ▸ hcode.act _ (Action.loopFree_within ha first)
    obtain ⟨later, events, hevents, htrace⟩ := ih hreachable hholds hrest
    refine ⟨max first later, (result, after.machine.sink) :: events,
      List.forall_mem_cons.2 ⟨hresult, hevents⟩, fun budget hle => ?_⟩
    rw [List.map_cons, trace, hact budget (Nat.le_trans (Nat.le_max_left _ _) hle),
      htrace budget (Nat.le_trans (Nat.le_max_right _ _) hle)]

/-- A session whose sources have no loops ends, whatever the host does in between: each run has a
result, and all budgets that are large enough have the same. -/
theorem loop_free_terminates (sink : Sink) (clock : Clock) {actions : List Action}
    (h : ∀ a ∈ actions, a.loopFree) :
    ∃ enough events, (∀ event ∈ events, event.1 ≠ some .unfinished) ∧
      ∀ budget, enough ≤ budget →
        trace (actions.map (Action.within budget)) (start sink clock) = events :=
  trace_ends (.start sink clock) (.start sink clock) h

/-- Two functions that call each other without an end, and a later call of one of them, stop for
the number of their calls, and so end. -/
theorem loop_free_terminates_start :
    let actions : List Action :=
      [.run 0 "fun f() \x7b g(); \x7d fun g() \x7b f(); \x7d f();", .run 0 "g();"]
    (∀ a ∈ actions, a.loopFree) ∧
      ∃ enough events, (∀ event ∈ events, event.1 ≠ some .unfinished) ∧
        ∀ budget, enough ≤ budget →
          trace (actions.map (Action.within budget)) (start .unlimited 0) = events := by
  intro actions
  have hactions : ∀ a ∈ actions, a.loopFree := by decide +kernel
  exact ⟨hactions, loop_free_terminates .unlimited 0 hactions⟩

end Session

end LoxLang
