import LoxLang.Proofs.Alpha.Sessions

/-!
# Rejected sources leave no trace

A source with errors uses up numbers of mentions, and does nothing else. All that happens after it
would have happened without it.

1. `Session.record_prunes`: records from which rejected runs are left out.
-/

namespace LoxLang

/-- An action, how a run ended by it, and what the sink held after it. -/
abbrev Event := Action × Option RunResult × Sink

namespace Session

/-- What happened to a session, action by action. -/
def record (actions : List Action) (s : Session) : List Event :=
  actions.zip (s.trace actions)

/-- Some of the runs that were rejected are left out of a record.

* `keep`: what happened stays in the record; a run that was rejected may stay too.
* `drop`: a run that was rejected is left out, whatever its source, its budget and its errors. -/
inductive Prunes : List Event → List Event → Prop
  | nil : Prunes [] []
  | keep (e : Event) {events kept : List Event} :
      Prunes events kept → Prunes (e :: events) (e :: kept)
  | drop (budget : Nat) (source : String) (errors : List Diagnostic) (sink : Sink)
      {events kept : List Event} : Prunes events kept →
      Prunes ((.run budget source, some (.rejected errors), sink) :: events) kept

/-- A run that is rejected writes nothing, and changes nothing in the machine. -/
theorem machine_run_of_rejected {s : Session} {budget : Nat} {source : String}
    {errors : List Diagnostic} (h : (s.run budget source).1 = .rejected errors) :
    (s.run budget source).2.machine = s.machine := by
  have hrun : (s.run budget source).2 = ⟨s.machine, (Reading.ofSource source s.nextId).nextId⟩ := by
    refine runReading_rejected s budget fun distances herrors hresolve => ?_
    rw [run, runReading_accepted s budget herrors hresolve] at h
    generalize Eval.program budget (Reading.ofSource source s.nextId).statements
      (s.machine.learn distances) = ending at h
    cases ending <;> cases h
  rw [hrun]

end Session

namespace Located.Alpha.Ahead

variable {ids : Nat} {s s' : Located.Session}

/-- A record without some of the rejected runs is one of a session in which they were not tried. -/
theorem prunes (h : Ahead ids s s') {actions : List Action} {kept : List Event}
    (hkept : Session.Prunes (actions.zip (s'.trace actions)) kept) :
    (kept.map Prod.fst).zip (s.trace (kept.map Prod.fst)) = kept := by
  induction actions generalizing ids s s' kept with
  | nil =>
    cases hkept
    rfl
  | cons a rest ih =>
    rw [Session.trace, List.zip_cons_cons] at hkept
    generalize hentry : (a, (s'.act a).1, (s'.act a).2.machine.sink) = entry at hkept
    cases hkept with
    | keep _ hrest =>
      obtain ⟨hresult, hafter⟩ := h.act a
      rw [← hentry, List.map_cons, Session.trace, List.zip_cons_cons, ih hafter hrest, hresult,
        hafter.machine.sink]
    | drop budget source errors sink hrest =>
      simp only [Prod.mk.injEq] at hentry
      obtain ⟨rfl, hresult, -⟩ := hentry
      obtain ⟨ids', hafter⟩ := h.rejected (Option.some.inj hresult)
      exact ih hafter hrest

end Located.Alpha.Ahead

namespace Session

/-- A run that is rejected changes nothing in the machine, and writes nothing. If it had not been
tried, then all other actions would have had the same results, and the sink would have held the same
after each of them. -/
theorem record_prunes {s : Session} (h : s.Reachable) :
    (∀ budget source errors, (s.run budget source).1 = .rejected errors →
        (s.run budget source).2.machine = s.machine) ∧
      ∀ actions kept, Prunes (s.record actions) kept → s.record (kept.map Prod.fst) = kept := by
  refine ⟨fun _ _ _ => machine_run_of_rejected, fun actions kept hkept => ?_⟩
  -- Evaluation with locations does not know the numbers of mentions.
  obtain ⟨w, s', hs, hself⟩ := h.located
  unfold record at hkept ⊢
  rw [hs.trace_eq] at hkept ⊢
  exact hself.prunes hkept

/-- A closure is made before a rejected source and called after it, by a source whose mentions would
have had other numbers. -/
theorem record_prunes_start :
    let s := start .unlimited 0
    let actions : List Action :=
      [.run 20 "fun f() \x7b var x = 1; fun g() \x7b return x; \x7d return g; \x7d var h = f();",
        .run 20 "\x7b var y = y; \x7d", .run 20 "print h();"]
    let kept := (s.record actions).eraseIdx 1
    kept.map (fun e => e.2.1) = [some .success, some .success] ∧ Prunes (s.record actions) kept ∧
      s.record (kept.map Prod.fst) = kept := by
  intro s actions kept
  have hresults : kept.map (fun e => e.2.1) = [some .success, some .success] := by decide +kernel
  have hkept : Prunes (s.record actions) kept := by
    have hrejected : (s.trace actions)[1].1 =
        some (.rejected [.scoping ⟨⟨1, some "y"⟩, .inOwnInitializer⟩]) := by decide +kernel
    refine .keep _ ?_
    change Prunes ((_, (s.trace actions)[1].1, _) :: _) _
    rw [hrejected]
    exact .drop _ _ _ _ (.keep _ .nil)
  exact ⟨hresults, hkept, (record_prunes (.start .unlimited 0)).2 actions kept hkept⟩

end Session

end LoxLang
