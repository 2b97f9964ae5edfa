import LoxLang.Proofs.Copies.Sessions
import LoxLang.Proofs.Layout.Readings

/-!
# Sessions in two layouts

What a program does is not influenced by its layout. A session is compared with one in which all
sources stand on one line, so that two sessions with the same history but for the layout are
compared with the same one.

1. `Session.Levels.runReading`: a run, and the run of the same text on one line.
2. `Session.SameHistory.level`: what two layouts have in common.
3. `Session.layout_unseen`: whole histories.
-/

namespace LoxLang

/-- All code, and the same code on one line. -/
def Copy.flat {known known' : Distances} (agree : ∀ id : Nat, known[id]? = known'[id]?) : Copy where
  toDiscipline := .any
  moves d := d = .flat
  known := known
  known' := known'
  agree := by
    rintro c - o - d rfl
    exact agree o.id

/-- Where a failure or a fault arose is moved. -/
def RunResult.move (d : Move) : RunResult → RunResult
  | .success => .success
  | .rejected errors => .rejected (errors.map (Diagnostic.move d))
  | .stopped failure => .stopped (failure.move d)
  | .unfinished => .unfinished

namespace Session

/-- The second session has everything on one line, and is otherwise the same as the first. -/
structure Levels (s s' : Session) : Prop where
  agree : ∀ id : Nat, s.machine.distances[id]? = s'.machine.distances[id]?
  machine : (Copy.flat agree).Alike s.machine s'.machine
  nextId : s.nextId = s'.nextId

namespace Levels

variable {s s' : Session} {m m' : Machine} {next : Nat}

theorem of_alike {known known' : Distances} {agree : ∀ id : Nat, known[id]? = known'[id]?}
    (h : (Copy.flat agree).Alike m m') (next : Nat) : Levels ⟨m, next⟩ ⟨m', next⟩ := by
  obtain rfl : m.distances = known := h.known
  obtain rfl : m'.distances = known' := h.known'
  exact ⟨agree, h, rfl⟩

theorem start (sink : Sink) (clock : Clock) : (start sink clock).Levels (start sink clock) :=
  ⟨fun _ => rfl, .start rfl rfl sink clock, rfl⟩

/-- A program, and the same program on one line. -/
theorem ended (h : Levels ⟨m, next⟩ ⟨m', next⟩) (budget : Nat) (statements : List Stmt) :
    let run := Session.ended next (Eval.program budget statements m)
    let run' := Session.ended next (Eval.program budget (Stmt.moveAll .flat statements) m')
    run'.1 = run.1.move .flat ∧ run.2.Levels run'.2 := by
  have hrun := Copy.simulates_sequence budget rfl statements (fun _ _ => trivial) m m' h.machine
  rw [Eval.program_eq, Eval.program_eq]
  simp only [bind, Step.bind]
  generalize Eval.sequence budget statements m = e at hrun ⊢
  generalize Eval.sequence budget (Stmt.moveAll .flat statements) m' = e' at hrun ⊢
  cases hrun with
  | done hn =>
    simp only [Eval.flush, ← hn.1.sink]
    split
    · exact ⟨rfl, of_alike hn.1 next⟩
    · exact ⟨rfl, of_alike hn.1 next⟩
  | failed hf hn =>
    obtain ⟨-, d, rfl, rfl⟩ := hf
    exact ⟨rfl, of_alike hn next⟩
  | exhausted hn => exact ⟨rfl, of_alike hn next⟩

theorem learn (h : s.Levels s') {distances distances' : Distances}
    (hsame : ∀ id : Nat, distances'[id]? = distances[id]?) (next : Nat) :
    Levels ⟨s.machine.learn distances, next⟩ ⟨s'.machine.learn distances', next⟩ where
  agree := fun id => by simp only [Machine.learn, Std.TreeMap.getElem?_union, hsame, h.agree]
  machine := h.machine.know ⟨⟨id, id⟩, id⟩
  nextId := rfl

/-- A text, and the same text on one line. -/
theorem runReading (h : s.Levels s') (budget : Nat) (reading : Reading) :
    let run := s.runReading budget reading
    let run' := s'.runReading budget (reading.move .flat)
    run'.1 = run.1.move .flat ∧ run.2.Levels run'.2 := by
  have hmachine : Levels ⟨s.machine, reading.nextId⟩ ⟨s'.machine, reading.nextId⟩ :=
    ⟨h.agree, h.machine, rfl⟩
  cases herrors : reading.errors with
  | nil =>
    have herrors' : (reading.move .flat).errors = [] := by rw [Reading.move, herrors]; rfl
    cases hresolve : resolve reading.statements with
    | error errors =>
      have hresolve' : resolve (reading.move .flat).statements = _ :=
        resolve_moveAll_error .flat hresolve
      simp only [Session.runReading, herrors, herrors', hresolve, hresolve', List.isEmpty_nil,
        if_true]
      refine ⟨?_, hmachine⟩
      simp only [RunResult.move, List.map_map]
      rfl
    | ok distances =>
      obtain ⟨distances', hresolve', hsame⟩ := resolve_moveAll .flat hresolve
      rw [runReading_accepted s budget herrors hresolve,
        runReading_accepted s' budget herrors' hresolve']
      exact (h.learn hsame _).ended budget reading.statements
  | cons error rest =>
    simp only [Session.runReading, Reading.move, herrors]
    exact ⟨rfl, hmachine⟩

/-- The same text in two layouts, in sessions that are the same on one line. -/
theorem same_runs {t : Session} (h : s.Levels t) (h' : s'.Levels t) (budget : Nat)
    {reading reading' : Reading} (hreading : reading.move .flat = reading'.move .flat) :
    let run := s.runReading budget reading
    let run' := s'.runReading budget reading'
    run.1.move .flat = run'.1.move .flat ∧ ∃ u, run.2.Levels u ∧ run'.2.Levels u := by
  obtain ⟨hresult, hlevels⟩ := h.runReading budget reading
  obtain ⟨hresult', hlevels'⟩ := h'.runReading budget reading'
  rw [hreading] at hresult hlevels
  exact ⟨hresult.symm.trans hresult', _, hlevels, hlevels'⟩

theorem defineNative (h : s.Levels s') (name : String) (host : Host) :
    (s.defineNative name host.native).Levels (s'.defineNative name host.native) :=
  ⟨h.agree, h.machine.defineNative name host, h.nextId⟩

theorem drain (h : s.Levels s') : s.drain.2.Levels s'.drain.2 := by
  unfold Session.drain
  rw [← h.machine.sink]
  exact ⟨h.agree, h.machine.withSink _, h.nextId⟩

end Levels

/-- Two sessions in which the same happened, but for the layout of the texts that were run.

* `start`: both are new, with the same sink and the same clock.
* `run`: in both a text was run, within the same budget. The texts have the same tokens but for the
  lines. What was reported about them before their tokens were read may be on other lines as well.
* `offer`: in both the same function was offered under the same name.
* `drain`: of both the output was taken away. -/
inductive SameHistory : Session → Session → Prop
  | start (sink : Sink) (clock : Clock) : SameHistory (start sink clock) (start sink clock)
  | run (budget : Nat) {s s' : Session} {before before' : List Diagnostic}
      {tokens tokens' : List Token} :
      before.map (Diagnostic.move .flat) = before'.map (Diagnostic.move .flat) →
      List.Forall₂ Token.SameText tokens tokens' → SameHistory s s' →
      SameHistory (s.runReading budget (.ofTokens before tokens s.nextId)).2
        (s'.runReading budget (.ofTokens before' tokens' s'.nextId)).2
  | offer (name : String) (host : Host) {s s' : Session} : SameHistory s s' →
      SameHistory (s.defineNative name host.native) (s'.defineNative name host.native)
  | drain {s s' : Session} : SameHistory s s' → SameHistory s.drain.2 s'.drain.2

/-- Every session that comes of actions has its own history. -/
theorem Reachable.sameHistory {s : Session} (h : s.Reachable) : s.SameHistory s := by
  induction h with
  | start sink clock => exact .start sink clock
  | act a _ ih =>
    cases a with
    | run budget source =>
      refine .run budget rfl ?_ ih
      exact List.forall₂_same.2 fun t _ => ⟨rfl, rfl⟩
    | offer name host => exact .offer name host ih
    | drain => exact .drain ih

namespace SameHistory

variable {s s' : Session} {before before' : List Diagnostic} {tokens tokens' : List Token}

/-- On one line, two layouts are the same. -/
theorem level (h : s.SameHistory s') : ∃ t, s.Levels t ∧ s'.Levels t := by
  induction h with
  | start sink clock => exact ⟨_, .start sink clock, .start sink clock⟩
  | @run budget s s' before before' tokens tokens' hbefore htokens _ ih =>
    obtain ⟨t, h, h'⟩ := ih
    rw [h.nextId, ← h'.nextId]
    exact (h.same_runs h' budget (Reading.ofTokens_flat hbefore htokens _)).2
  | offer name host _ ih =>
    obtain ⟨t, h, h'⟩ := ih
    exact ⟨_, h.defineNative name host, h'.defineNative name host⟩
  | drain _ ih =>
    obtain ⟨t, h, h'⟩ := ih
    exact ⟨_, h.drain, h'.drain⟩

end SameHistory

/-- Tokens that agree in all but their lines are read as the same statements, with the same numbers
and the same faults, and the same is found out about their mentions; only lines may differ. And if
they are run after the same history then both runs write the same, and end in the same way, with
the same message up to its line. -/
theorem layout_unseen {tokens tokens' : List Token}
    (h : List.Forall₂ Token.SameText tokens tokens') :
    (∀ first,
      let parsed := Parsed.ofTokens tokens first
      let parsed' := Parsed.ofTokens tokens' first
      parsed.move .flat = parsed'.move .flat ∧
        SameResult (fun distances distances' => ∀ id : Nat, distances[id]? = distances'[id]?)
          ((resolve parsed.statements).mapError (List.map (ScopingError.move .flat)))
          ((resolve parsed'.statements).mapError (List.map (ScopingError.move .flat)))) ∧
      ∀ s s' : Session, s.SameHistory s' → ∀ (budget : Nat) (before before' : List Diagnostic),
        before.map (Diagnostic.move .flat) = before'.map (Diagnostic.move .flat) →
          let run := s.runReading budget (.ofTokens before tokens s.nextId)
          let run' := s'.runReading budget (.ofTokens before' tokens' s'.nextId)
          run.1.move .flat = run'.1.move .flat ∧
            run.2.machine.sink = run'.2.machine.sink := by
  refine ⟨fun first => ?_, fun s s' hs budget before before' hbefore => ?_⟩
  · have hparsed := Parsed.ofTokens_flat h first
    exact ⟨hparsed, resolve_flat (congrArg Parsed.statements hparsed)⟩
  · obtain ⟨t, hs, hs'⟩ := hs.level
    rw [hs.nextId, ← hs'.nextId]
    obtain ⟨hresult, u, hu, hu'⟩ := hs.same_runs hs' budget (Reading.ofTokens_flat hbefore h _)
    exact ⟨hresult, hu.machine.sink.trans hu'.machine.sink.symm⟩

/-- A function is declared on one line or, with a comment, on three; it stops a later call at the
one or at the other. -/
theorem layout_unseen_start :
    let s := start .unlimited 0
    let declared := "fun f() \x7b print a; \x7d"
    let declared' := "fun f() \x7b // a is missed\n  print a;\n\x7d"
    let called := "f();"
    let called' := "\nf ( ) ;"
    List.Forall₂ Token.SameText (scan called).1 (scan called').1 ∧
      (s.run 20 declared).2.SameHistory (s.run 20 declared').2 ∧
      ((s.run 20 declared).2.run 20 called).1 =
        .stopped (.runtime ⟨1, .undefinedVariable "a"⟩) ∧
      ((s.run 20 declared').2.run 20 called').1.move .flat =
        .stopped (.runtime ⟨0, .undefinedVariable "a"⟩) := by
  intro s declared declared' called called'
  have hdeclared : Span.visible declared = Span.visible declared' := by decide +kernel
  have hcalled : Span.visible called = Span.visible called' := by decide +kernel
  have hhistory : (s.run 20 declared).2.SameHistory (s.run 20 declared').2 :=
    .run 20 (by decide +kernel) (scan_flat hdeclared).1 (.start .unlimited 0)
  have hstopped : ((s.run 20 declared).2.run 20 called).1 =
      .stopped (.runtime ⟨1, .undefinedVariable "a"⟩) := by decide +kernel
  have hsame := ((layout_unseen (scan_flat hcalled).1).2 _ _ hhistory 20
    ((scan called).2.map Diagnostic.lexical) ((scan called').2.map Diagnostic.lexical)
    (by decide +kernel)).1
  refine ⟨(scan_flat hcalled).1, hhistory, hstopped, ?_⟩
  exact hsame.symm.trans (congrArg (RunResult.move .flat) hstopped)

end Session

end LoxLang
