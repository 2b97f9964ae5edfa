import LoxLang.Proofs.Frames.Activations

/-!
# The chronicle of a session

Functions outlive the run in which they were made: the call that a piece of code belongs to, and the
declaration of its class, may lie in an earlier run of the session. So a session has a history, of
all that it has come to in all its runs, and its chronicle tells of that.

1. `Chronicle.Accords.run`: a run goes on from the chronicle of the session.
2. `Session.History.ready`: all that a run comes to is in frames that are those around it.
-/

namespace LoxLang

namespace Session

variable {s : Session} {budget : Nat} {source : String}

/-- What a session comes to in an action. -/
def Meets (s : Session) (a : Action) (v : Visit) : Prop :=
  ∃ budget source, a = .run budget source ∧ s.Visits budget source v

/-- A session, and all that it has come to.

* `start`: a new session, which has come to nothing.
* `act`: the session after an action. Where that was a run, it has come to the visits of the run as
  well. -/
inductive History : Session → (Visit → Prop) → Prop
  | start (sink : Sink) (clock : Clock) : History (start sink clock) fun _ => False
  | act (a : Action) {s : Session} {past : Visit → Prop} : History s past →
      History (s.act a).2 fun v => past v ∨ s.Meets a v

theorem Reachable.history (hs : s.Reachable) : ∃ past, s.History past := by
  induction hs with
  | start sink clock => exact ⟨_, .start sink clock⟩
  | act a _ ih =>
    obtain ⟨past, h⟩ := ih
    exact ⟨_, h.act a⟩

/-- The statements of an accepted source are run where the session is. -/
theorem visits_of_statements {statements : List Stmt} (distances : Distances) {v : Visit}
    (hstatements : (Reading.ofSource source s.nextId).statements = statements)
    (herrors : (Reading.ofSource source s.nextId).errors = [])
    (hresolve : resolve statements = .ok distances)
    (hv : LoxLang.Visits ⟨budget, .program statements, s.machine.learn distances⟩ v) :
    s.Visits budget source v := by
  subst hstatements
  exact ⟨distances, herrors, hresolve, hv⟩

/-- At the start there is the clock alone. -/
theorem start_honest (sink : Sink) (clock : Clock) :
    ∀ native ∈ (start sink clock).machine.natives, native.Honest := by
  intro native hnative run hrun
  obtain rfl : native = ⟨0, .clock⟩ := by simpa [start, Machine.start] using hnative
  cases hrun

theorem History.reachable {past : Visit → Prop} (h : s.History past) : s.Reachable := by
  induction h with
  | start sink clock => exact .start sink clock
  | act a _ ih => exact ih.act a

end Session

/-- No visit writes a variable that has one of the two words as its name. -/
def Writable (past : Visit → Prop) : Prop :=
  ∀ {u x target value}, past u → u.task = .write x target value →
    target.name ≠ "this" ∧ target.name ≠ "super"

namespace Session

variable {s : Session} {past : Visit → Prop} {budget : Nat} {source : String}

theorem Reachable.writable (hs : s.Reachable) : Writable (s.Visits budget source) := by
  rintro ⟨n, task, m⟩ x target value hu rfl
  obtain ⟨-, known, hcopied⟩ := hs.lawful hu
  obtain ⟨hthis, hsuper⟩ := hcopied.task.2.1 .nil
  refine ⟨fun h => ?_, fun h => ?_⟩
  · obtain ⟨address, c, hobject⟩ := hthis h
    exact nomatch hobject
  · obtain ⟨c, hclass⟩ := hsuper h
    exact nomatch hclass

theorem History.writable (h : s.History past) : Writable past := by
  induction h with
  | start sink clock => exact fun hu _ => hu.elim
  | act a h ih =>
    intro u x target value hu htask
    rcases hu with hu | ⟨budget, source, -, hu⟩
    · exact ih hu htask
    · exact h.reachable.writable hu htask

end Session

namespace Chronicle

variable {w : Chronicle} {m : Machine}

/-! ## Between two runs -/

/-- Before the first run there is the frame of the globals alone. -/
theorem Holds.start {past : Visit → Prop} (hpast : Writable past) (sink : Sink) (clock : Clock) :
    Holds ⟨[⟨.globals, []⟩], past, ⟨∅, 0⟩, 0, #[⟨0, .clock⟩]⟩ (Machine.start sink clock) := by
  have honly {i : Nat} {purpose : Purpose} {outer : List Nat}
      (h : Made ⟨[⟨.globals, []⟩], past, ⟨∅, 0⟩, 0, #[⟨0, .clock⟩]⟩ i purpose outer) :
      purpose = .globals := by
    cases i with
    | zero =>
      injection h with h
      injection h with h
      exact h.symm
    | succ i => exact nomatch h
  have hbound {i : Nat} {x : String} {v : Value}
      (h : Bindings.get? ((Machine.start sink clock).store.frame i) x = some v) :
      i = 0 ∧ v = .native 0 := by
    cases i with
    | zero =>
      have h : Bindings.get? [("clock", .native 0)] x = some v := h
      rw [Bindings.get?_cons] at h
      split at h
      · exact ⟨rfl, (Option.some.inj h).symm⟩
      · exact nomatch h
    | succ i => exact nomatch h
  refine
    { frames := rfl, root := rfl
      values := fun hv => (hbound hv).2 ▸ trivial
      fields := fun hv => nomatch hv
      receivers := fun h => nomatch honly h
      parents := fun h => nomatch honly h
      this := fun hv => .inr ⟨(hbound hv).1, 0, (hbound hv).2⟩
      super := fun hi hv => absurd (hbound hv).1 (Nat.ne_of_gt hi)
      calls := fun h => nomatch honly h
      declarations := fun h => nomatch honly h
      written := hpast, hosts := ?_, natives := rfl, distances := rfl, objects := rfl }
  intro native hnative
  obtain rfl : native = ⟨0, .clock⟩ := by simpa [Machine.start] using hnative
  exact ⟨rfl, .clock⟩

/-- More may be known about mentions. -/
theorem Holds.learn (hm : w.Holds m) {k : Knowledge} (hk : k.Extends w.knowledge)
    {distances : Distances} (hdistances : k.distances = m.distances ∪ distances) :
    Holds { w with knowledge := k } (m.learn distances) :=
  have hw : w.Before { w with knowledge := k } := { Before.refl w with knowledge := hk }
  { hm with
    root := hm.root.mono hw
    values := fun hv => (hm.values hv).mono hw
    fields := fun hv => (hm.fields hv).mono hw
    distances := hdistances.symm }

/-- The host may offer a function under any name, since it is in the globals. -/
theorem Holds.offer (hm : w.Holds m) (name : String) (host : Host) :
    Holds { w with natives := w.natives.push host.native }
      (m.defineNative name host.native) := by
  have hw : w.Before { w with natives := w.natives.push host.native } :=
    { Before.refl w with natives := fun native hn => Array.mem_push.2 (.inl hn) }
  have hm : w.Holds { m with store := m.store.put 0 name (.native m.natives.size) } :=
    hm.put trivial (.inl ⟨rfl, _, rfl⟩)
  exact
    { hm with
      root := hm.root.mono hw
      values := fun hv => (hm.values hv).mono hw
      fields := fun hv => (hm.fields hv).mono hw
      hosts := fun native hn => by
        rcases Array.mem_push.1 hn with hn | rfl
        · exact hm.hosts native hn
        · exact host.native_alike
      natives := congrArg (·.push host.native) hm.natives }

/-- A chronicle describes a session between two runs. -/
structure Accords (w : Chronicle) (s : Session) : Prop where
  machine : w.Holds s.machine
  knows : s.Knows w.knowledge

variable {s : Session} {budget : Nat} {source : String}

/-- The run of an accepted source begins in the globals. -/
theorem Accords.begins (h : w.Accords s) (hs : s.Reachable) {u : Visit}
    (hu : s.Begins budget source u) (hpast : ∀ v, Visits u v → w.past v) :
    ∃ w', w.Before w' ∧ w'.natives = w.natives ∧ w'.Ready [] u ∧
      ∀ m, m.distances = w'.knowledge.distances →
        Session.Knows ⟨m, (Reading.ofSource source s.nextId).nextId⟩ w'.knowledge := by
  obtain ⟨distances, herrors, hresolve, rfl⟩ := hu
  obtain ⟨hformed, hnumbered⟩ := Reading.formed_of_accepted herrors
  let k : Knowledge :=
    ⟨s.machine.distances ∪ distances, (Reading.ofSource source s.nextId).nextId⟩
  have hk : k.Extends w.knowledge := h.knows.extends_learn hresolve hnumbered
  let w' : Chronicle := { w with knowledge := k }
  have hm : w'.Holds (s.machine.learn distances) := h.machine.learn hk rfl
  have hscope : s.machine.scope.chain = [0] := by
    rw [hs.atRest.1]
    rfl
  refine ⟨w', { Before.refl w with knowledge := hk }, rfl, ⟨hm, ?_, hpast, ?_, ?_⟩, ?_⟩
  · exact hscope.symm ▸ Seats.globals hm.root
  · exact h.knows.scoped_learn hresolve hformed hnumbered
  · intro t _ i hi
    obtain rfl : i = 0 := by simpa [Machine.learn, hscope] using hi
    exact ⟨_, hm.root, fun _ _ => Purpose.noConfusion⟩
  · exact fun m hdistances =>
      ⟨hdistances, Nat.le_refl _, h.knows.fresh_learn hresolve hnumbered⟩

theorem Accords.run (h : w.Accords s) (hs : s.Reachable)
    (hpast : ∀ v, s.Visits budget source v → w.past v) :
    ∃ w', w.Before w' ∧ w'.Accords (s.run budget source).2 := by
  have hnext : (s.run budget source).2.nextId = (Reading.ofSource source s.nextId).nextId :=
    Session.nextId_runReading _ _ _
  rcases Session.machine_run s budget source with hmachine | ⟨u, hu, hmachine⟩
  · refine ⟨w, .refl w, ⟨hmachine ▸ h.machine, ?_⟩⟩
    refine ⟨by rw [hmachine, h.knows.distances], ?_, h.knows.fresh⟩
    rw [hnext]
    exact Nat.le_trans h.knows.limit (Reading.le_nextId source s.nextId)
  · have hvisits : ∀ v, Visits u v → w.past v := by
      intro v hv
      obtain ⟨distances, herrors, hresolve, rfl⟩ := hu
      exact hpast v ⟨distances, herrors, hresolve, hv⟩
    obtain ⟨w₁, hw₁, -, hready, hknows⟩ := h.begins hs hu hvisits
    obtain ⟨w₂, hw₂, hafter⟩ := hready.after
    have hsession : (s.run budget source).2 =
        ⟨u.after, (Reading.ofSource source s.nextId).nextId⟩ := by
      rw [← hmachine, ← hnext]
    rw [hsession]
    refine ⟨w₂, hw₁.trans hw₂, hafter, ?_⟩
    have hknows := hknows u.after (hafter.distances.trans (by rw [hw₂.knowledge_eq]))
    rwa [← hw₂.knowledge_eq] at hknows

end Chronicle

namespace Session

variable {s : Session} {past P : Visit → Prop} {budget : Nat} {source : String}

/-- A session has a chronicle, whatever it will have come to in the end. -/
theorem History.accords (h : s.History past) (hle : ∀ v, past v → P v) (hP : Writable P) :
    ∃ w : Chronicle, (∀ v, w.past v ↔ P v) ∧ w.Accords s := by
  induction h with
  | start sink clock =>
    refine ⟨_, fun v => .rfl, .start hP sink clock, rfl, Nat.le_refl _, fun id _ => ?_⟩
    simp
  | @act a s past h ih =>
    obtain ⟨w, hpast, hw⟩ := ih fun v hv => hle v (.inl hv)
    cases a with
    | run budget source =>
      have hvisits : ∀ v, s.Visits budget source v → w.past v := fun v hv =>
        (hpast v).2 (hle v (.inr ⟨budget, source, rfl, hv⟩))
      obtain ⟨w', hw', haccords⟩ := hw.run h.reachable hvisits
      exact ⟨w', fun v => hw'.past.symm.trans (hpast v), haccords⟩
    | offer name host =>
      exact ⟨{ w with natives := w.natives.push host.native }, hpast,
        hw.machine.offer name host, hw.knows.distances, hw.knows.limit, hw.knows.fresh⟩
    | drain =>
      exact ⟨w, hpast, { hw.machine with }, hw.knows.distances, hw.knows.limit, hw.knows.fresh⟩

/-- All that a run comes to is in frames that are those around it; the chronicle tells of what the
session has come to before and of the run itself. -/
theorem History.ready (h : s.History past) {v : Visit} (hv : s.Visits budget source v) :
    ∃ (w : Chronicle) (around : Surroundings),
      (∀ u, w.past u ↔ past u ∨ s.Visits budget source u) ∧ w.natives = s.machine.natives ∧
        w.Ready around v := by
  have hP : Writable fun u => past u ∨ s.Visits budget source u := by
    rintro u x target value (hu | hu) htask
    · exact h.writable hu htask
    · exact h.reachable.writable hu htask
  obtain ⟨w, hpast, hw⟩ := h.accords (fun v => .inl) hP
  obtain ⟨distances, herrors, hresolve, hv⟩ := hv
  have hbegins : s.Begins budget source _ := ⟨distances, herrors, hresolve, rfl⟩
  obtain ⟨w₁, hw₁, hnatives, hready, -⟩ := hw.begins h.reachable hbegins fun v hv =>
    (hpast v).2 (.inr ⟨distances, herrors, hresolve, hv⟩)
  obtain ⟨w₂, around, hw₂, hready⟩ := hready.visits hv
  refine ⟨w₂, around, fun u => ?_, ?_, hready⟩
  · exact (hw₁.past.trans hw₂.past).symm.trans (hpast u)
  · rw [hw₂.natives_eq, hnatives, hw.machine.natives]

end Session

end LoxLang
