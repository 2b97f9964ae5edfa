import LoxLang.Proofs.Alpha.Evaluation
import LoxLang.Proofs.Alpha.Moved
import LoxLang.Proofs.Locations.Sessions
import LoxLang.Proofs.Splitting.Readings
import LoxLang.Proofs.Splitting.Resolving

/-!
# Sessions that differ in their numbers

Numbers of mentions have no meaning of their own: of two sessions that are the same but for the
number of the next mention, nothing different can be seen from outside.

1. `Located.Alpha.runReading_accepted`: programs that are alike, on machines that hold the same.
2. `Located.Alpha.Ahead.act`: what happens to two sessions, one of which is ahead in its numbers.
3. `Session.Reachable.located`: every session has one that knows no numbers.
-/

namespace LoxLang.Located

namespace Alpha

theorem SameFailure.eq {f f' : Failure} (h : SameFailure Eq f f') : f = f' := by
  cases h with
  | runtime fault hline => rw [hline]
  | output fault => rfl

/-- Nothing is held yet but the clock. -/
theorem SameMachine.start (L : Nat → Nat → Prop) (sink : Sink) (clock : Clock) :
    SameMachine L none (Machine.start sink clock) (Machine.start sink clock) where
  cells := .nil
  globals := .cons ⟨rfl, .native 0⟩ .nil
  objects := .nil
  nextId := rfl
  natives := rfl
  hosts := by
    rintro native hm
    obtain rfl := List.mem_singleton.1 (Array.mem_toList_iff.2 hm)
    exact ⟨rfl, .clock⟩
  clock := rfl
  places := .outside
  depth := rfl
  sink := rfl

variable {s s' : Session} {reading reading' : Reading}

/-- Programs without errors that are alike are run alike. -/
theorem runReading_accepted (hm : SameMachine Eq none s.machine s'.machine) (budget : Nat)
    (herrors : reading.errors = []) (herrors' : reading'.errors = [])
    {distances distances' : Distances} (hresolve : resolve reading.statements = .ok distances)
    (hresolve' : resolve reading'.statements = .ok distances')
    (h : Stmt.AllAlike Eq none reading.statements reading'.statements) :
    (s.runReading budget reading).1 = (s'.runReading budget reading').1 ∧
      SameMachine Eq none (s.runReading budget reading).2.machine
        (s'.runReading budget reading').2.machine := by
  have hrun := simulates_program budget h _ _ hm
  have hnone {n n' : Machine} : Somewhere Eq none n n' → SameMachine Eq none n n' := by
    rintro ⟨ρ, hn, hρ⟩
    exact hρ rfl ▸ hn
  simp only [Session.runReading, herrors, herrors', hresolve, hresolve', List.isEmpty_nil, if_true]
  generalize Eval.program budget reading.statements s.machine = e at hrun ⊢
  generalize Eval.program budget reading'.statements s'.machine = e' at hrun ⊢
  cases hrun with
  | done hn => exact ⟨rfl, hn.1⟩
  | failed hf hn => exact ⟨congrArg RunResult.stopped hf.eq, hnone hn⟩
  | exhausted hn => exact ⟨rfl, hnone hn⟩

theorem nextId_runReading (s : Session) (budget : Nat) (reading : Reading) :
    (s.runReading budget reading).2.nextId = reading.nextId := by
  unfold Session.runReading
  split
  · split
    · rfl
    · split <;> rfl
  · rfl

theorem machine_runReading_of_rejected {budget : Nat} {errors : List Diagnostic}
    (h : (s.runReading budget reading).1 = .rejected errors) :
    (s.runReading budget reading).2.machine = s.machine := by
  unfold Session.runReading at h ⊢
  split
  · next hempty =>
    rw [if_pos hempty] at h
    split
    · rfl
    · next hresolve =>
      simp only [hresolve] at h
      cases hrun : Eval.program budget reading.statements s.machine <;> simp [hrun] at h
  · rfl

/-- The second session has used up so many numbers more; otherwise both are the same. -/
structure Ahead (ids : Nat) (s s' : Session) : Prop where
  machine : SameMachine Eq none s.machine s'.machine
  nextId : s'.nextId = s.nextId + ids

namespace Ahead

variable {ids : Nat}

theorem start (sink : Sink) (clock : Clock) :
    Ahead 0 (Session.start sink clock) (Session.start sink clock) :=
  ⟨.start Eq sink clock, rfl⟩

theorem run (h : Ahead ids s s') (budget : Nat) (source : String) :
    (s.run budget source).1 = (s'.run budget source).1 ∧
      Ahead ids (s.run budget source).2 (s'.run budget source).2 := by
  have hreading := Reading.ofSource_renumbered source s.nextId ids
  rw [← h.nextId] at hreading
  unfold Session.run
  rw [hreading]
  by_cases herrors : (Reading.ofSource source s.nextId).errors = []
  · cases hresolve : resolve (Reading.ofSource source s.nextId).statements with
    | error errors =>
      have hsame : errors.map (ScopingError.move (.on ids)) = errors := List.map_id _
      have hresolve' := resolve_moveAll_error (.on ids) hresolve
      rw [hsame] at hresolve'
      simp only [Session.runReading, herrors, hresolve, hresolve', List.isEmpty_nil, if_true]
      exact ⟨trivial, h.machine, rfl⟩
    | ok distances =>
      obtain ⟨distances', hresolve', -⟩ := resolve_moveAll (.on ids) hresolve
      obtain ⟨hformed, -⟩ := Reading.formed_of_accepted herrors
      have hmoved := Stmt.allAlike_move (L := Eq) (d := .on ids) (fun _ => rfl) (ρ := none)
        (List.forall_mem_nil _) _ hformed
      let reading' : Reading :=
        ⟨Stmt.moveAll (.on ids) (Reading.ofSource source s.nextId).statements,
          (Reading.ofSource source s.nextId).errors,
          (Reading.ofSource source s.nextId).nextId + ids⟩
      have herrors' : reading'.errors = [] := herrors
      obtain ⟨hresult, hmachine⟩ :=
        runReading_accepted h.machine budget herrors herrors' hresolve hresolve' hmoved
      refine ⟨hresult, hmachine, ?_⟩
      rw [nextId_runReading, nextId_runReading]
  · rw [← List.isEmpty_iff] at herrors
    simp only [Session.runReading, herrors]
    exact ⟨rfl, h.machine, rfl⟩

/-- A run that is rejected does nothing but use up numbers. -/
theorem rejected (h : Ahead ids s s') {budget : Nat} {source : String} {errors : List Diagnostic}
    (hrejected : (s'.run budget source).1 = .rejected errors) :
    ∃ ids', Ahead ids' s (s'.run budget source).2 := by
  obtain ⟨more, hmore⟩ := Nat.exists_eq_add_of_le (Reading.le_nextId source s'.nextId)
  refine ⟨ids + more, ?_, ?_⟩
  · rw [Session.run, machine_runReading_of_rejected hrejected]
    exact h.machine
  · rw [Session.run, nextId_runReading, hmore, h.nextId, Nat.add_assoc]

theorem defineNative (h : Ahead ids s s') (name : String) (host : Host) :
    Ahead ids (s.defineNative name host.native) (s'.defineNative name host.native) where
  machine :=
    { h.machine with
      globals := by
        simp only [Session.defineNative, Machine.defineNative, ← h.machine.natives]
        exact h.machine.globals.put name (.native _)
      natives := congrArg (·.push host.native) h.machine.natives
      hosts := by
        intro native hm
        rcases Array.mem_push.1 hm with hm | rfl
        · exact h.machine.hosts native hm
        · exact host.native_alike }
  nextId := h.nextId

theorem drain (h : Ahead ids s s') : Ahead ids s.drain.2 s'.drain.2 :=
  ⟨{ h.machine with sink := congrArg (fun sink => sink.drain.2) h.machine.sink }, h.nextId⟩

theorem act (h : Ahead ids s s') (a : Action) :
    (s.act a).1 = (s'.act a).1 ∧ Ahead ids (s.act a).2 (s'.act a).2 := by
  cases a with
  | run budget source =>
    obtain ⟨hresult, hafter⟩ := h.run budget source
    exact ⟨congrArg some hresult, hafter⟩
  | offer name host => exact ⟨rfl, h.defineNative name host⟩
  | drain => exact ⟨rfl, h.drain⟩

theorem trace_eq (h : Ahead ids s s') (actions : List Action) :
    s.trace actions = s'.trace actions := by
  induction actions generalizing s s' with
  | nil => rfl
  | cons a rest ih =>
    obtain ⟨hresult, h'⟩ := h.act a
    rw [Session.trace, Session.trace, hresult, h'.machine.sink, ih h']

end Ahead

end Alpha

end LoxLang.Located

namespace LoxLang

/-- Every session has one with locations in step with it, in which numbers have no meaning. -/
theorem Session.Reachable.located {s : Session} (h : s.Reachable) :
    ∃ w s', SameSession w s s' ∧ Located.Alpha.Ahead 0 s' s' := by
  induction h with
  | start sink clock => exact ⟨_, _, .start sink clock, .start sink clock⟩
  | act a _ ih =>
    obtain ⟨w, s', hs, hself⟩ := ih
    obtain ⟨-, w', hs'⟩ := hs.act a
    exact ⟨w', _, hs', (hself.act a).2⟩

end LoxLang
