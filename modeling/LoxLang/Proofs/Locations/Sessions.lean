import LoxLang.Proofs.Grammar.Sources
import LoxLang.Proofs.Locations.Simulation

/-!
# Static scoping

Resolution and evaluation with frames and distances together have the meaning that evaluation with
locations gives to programs. Knowledge about mentions grows from source to source; because the
mentions of each source have new numbers, what was known stays true, and functions of earlier
sources keep their meaning.

1. `SameSession.runReading`: one run keeps two sessions in step.
2. `Session.trace_eq_located`: nothing can be told apart from outside.
-/

namespace LoxLang

open Located (Places)

variable {w : World}

/-- More is known about mentions. -/
theorem Corresponds.learn {m : Machine} {m' : Located.Machine} (hc : Corresponds w m m')
    {distances : Distances} {limit : Nat}
    (hk : Knowledge.Extends ⟨m.distances ∪ distances, limit⟩ w.knowledge) :
    Corresponds { w with knowledge := ⟨m.distances ∪ distances, limit⟩ } (m.learn distances)
      m' := by
  have hle : w.Le { w with knowledge := ⟨m.distances ∪ distances, limit⟩ } := ⟨id, id, hk⟩
  obtain ⟨hsize, hframes, hroot, hinside, hnodup, hmade, hvalues, hglobals⟩ := hc.memory
  refine { hc with memory := ?_, fields := fun i => (hc.fields i).mono hle, distances := rfl }
  refine ⟨hsize, hframes, hroot, hinside, hnodup, hmade, fun ha hb => ?_, hglobals.mono hle⟩
  obtain ⟨v, v', hv, hv', hsame⟩ := hvalues ha hb
  exact ⟨v, v', hv, hv', hsame.mono hle.likeness⟩

/-- What a session knows about mentions: nothing yet of those that are still to come. -/
structure Session.Knows (s : Session) (k : Knowledge) : Prop where
  distances : s.machine.distances = k.distances
  limit : k.limit ≤ s.nextId
  fresh : ∀ id, k.limit ≤ id → k.distances[id]? = none

namespace Session.Knows

variable {s : Session} {k : Knowledge} {statements : List Stmt} {distances : Distances}
  {next : Nat}

/-- What is found out about the mentions of a new source adds to what is known. -/
theorem extends_learn (h : s.Knows k) (hresolve : resolve statements = .ok distances)
    (hn : Numbered s.nextId (Stmt.allMentions statements) next) :
    Knowledge.Extends ⟨s.machine.distances ∪ distances, next⟩ k where
  limit_le := Nat.le_trans h.limit hn.le
  agree := by
    intro id hid
    have hnone : distances[id]? = none := distances_of_resolve hresolve fun hm => by
      obtain ⟨o, ho, rfl⟩ := List.mem_map.1 hm
      exact absurd (Nat.lt_of_lt_of_le hid h.limit) (Nat.not_lt_of_le (hn.within o ho).1)
    rw [Std.TreeMap.getElem?_union, hnone, Option.none_or, h.distances]

/-- The mentions of a new source are traced by what is then known. -/
theorem scoped_learn (h : s.Knows k) (hresolve : resolve statements = .ok distances)
    (hf : Stmt.AllFormed IsName statements)
    (hn : Numbered s.nextId (Stmt.allMentions statements) next) :
    Stmt.AllScoped ⟨s.machine.distances ∪ distances, next⟩ [] statements :=
  scoped_of_resolve hresolve hf hn (Nat.le_refl _) fun o ho => by
    have hnone : s.machine.distances[o.id]? = none := by
      rw [h.distances]
      exact h.fresh o.id (Nat.le_trans h.limit (hn.within o ho).1)
    rw [Std.TreeMap.getElem?_union, hnone, Option.or_none]

/-- Nothing is known about mentions after those of a new source. -/
theorem fresh_learn (h : s.Knows k) (hresolve : resolve statements = .ok distances)
    (hn : Numbered s.nextId (Stmt.allMentions statements) next) (id : Nat) (hid : next ≤ id) :
    (s.machine.distances ∪ distances)[id]? = none := by
  have hnone : distances[id]? = none := distances_of_resolve hresolve fun hm => by
    obtain ⟨o, ho, rfl⟩ := List.mem_map.1 hm
    exact absurd (hn.within o ho).2 (Nat.not_lt_of_le hid)
  rw [Std.TreeMap.getElem?_union, hnone, Option.none_or, h.distances]
  exact h.fresh id (Nat.le_trans h.limit (Nat.le_trans hn.le hid))

end Session.Knows

/-- The outermost spot of a program. -/
def Spot.top : Spot :=
  ⟨Machine.globals, [], none⟩

/-- Two sessions in step, between two sources. No mention that is yet to come is known. -/
structure SameSession (w : World) (s : Session) (s' : Located.Session) : Prop where
  related : Related w .top s.machine s'.machine
  nextId : s.nextId = s'.nextId
  limit : w.knowledge.limit ≤ s.nextId
  fresh : ∀ id, w.knowledge.limit ≤ id → w.knowledge.distances[id]? = none

theorem SameSession.start (sink : Sink) (clock : Clock) :
    SameSession ⟨[], fun _ => False, 1, ⟨∅, 0⟩⟩ (Session.start sink clock)
      (Located.Session.start sink clock) := by
  refine ⟨⟨⟨⟨rfl, rfl, Nat.one_pos, nofun, nofun, nofun, nofun, fun x => ?_⟩, rfl, ?_, rfl, rfl, ?_,
    rfl, rfl, rfl, rfl⟩, rfl, .outside⟩, rfl, Nat.le_refl _, by simp⟩
  · change Option.Rel _ (Bindings.get? [("clock", Value.native 0)] x)
      (Bindings.get? [("clock", Value.native 0)] x)
    rw [Bindings.get?_cons, Bindings.get?_cons]
    split
    · exact .some (.native 0)
    · exact .none
  · intro i x
    exact .none
  · intro i
    cases i with
    | zero => exact .some ⟨rfl, .clock⟩
    | succ i => exact .none

namespace SameSession

variable {s : Session} {s' : Located.Session}

theorem knows (h : SameSession w s s') : s.Knows w.knowledge :=
  ⟨h.related.corresponds.distances, h.limit, h.fresh⟩

/-- The two sessions before the first statement of a new source. -/
theorem learn (h : SameSession w s s') {statements : List Stmt} {distances : Distances}
    {next : Nat} (hresolve : resolve statements = .ok distances)
    (hn : Numbered s.nextId (Stmt.allMentions statements) next) :
    Related { w with knowledge := ⟨s.machine.distances ∪ distances, next⟩ } .top
      (s.machine.learn distances) s'.machine := by
  obtain ⟨hc, hscope, hpresent⟩ := h.related
  refine ⟨hc.learn (h.knows.extends_learn hresolve hn), hscope, ?_⟩
  rw [hpresent.eq_none rfl]
  exact .outside

/-- Two sessions are in step again after a program ends or is broken off. -/
theorem after {m : Machine} {m' : Located.Machine} {k : Knowledge}
    (h : Broken k Machine.globals m m') (hfresh : ∀ id, k.limit ≤ id → k.distances[id]? = none) :
    ∃ w', SameSession w' ⟨m, k.limit⟩ ⟨m', k.limit⟩ := by
  obtain ⟨⟨w', rfl, hc⟩, hscope, hout⟩ := h
  exact ⟨w', ⟨hc, hscope, hout rfl ▸ .outside⟩, rfl, Nat.le_refl _, hfresh⟩

/-- The run of a source that was read. -/
theorem runReading (h : SameSession w s s') (budget : Nat) {reading : Reading}
    (hle : s.nextId ≤ reading.nextId)
    (hformed : reading.errors = [] → Stmt.AllFormed IsName reading.statements ∧
      Numbered s.nextId (Stmt.allMentions reading.statements) reading.nextId) :
    (s.runReading budget reading).1 = (s'.runReading budget reading).1 ∧
      ∃ w', SameSession w' (s.runReading budget reading).2 (s'.runReading budget reading).2 := by
  have hrejected : ∃ w', SameSession w' ⟨s.machine, reading.nextId⟩ ⟨s'.machine, reading.nextId⟩ :=
    ⟨w, h.related, rfl, Nat.le_trans h.limit hle, h.fresh⟩
  by_cases hempty : reading.errors.isEmpty
  · obtain ⟨hf, hn⟩ := hformed (List.isEmpty_iff.1 hempty)
    simp only [Session.runReading, Located.Session.runReading, hempty, if_true]
    cases hresolve : resolve reading.statements with
    | error errors => exact ⟨rfl, hrejected⟩
    | ok distances =>
      have hfresh := h.knows.fresh_learn hresolve hn
      have hrun := simulates_program budget (p := .top) ⟨rfl, rfl⟩ reading.statements
        (w := { w with knowledge := ⟨s.machine.distances ∪ distances, reading.nextId⟩ })
        (h.knows.scoped_learn hresolve hf hn) _ _ (h.learn hresolve hn)
      simp only
      generalize Eval.program budget reading.statements (s.machine.learn distances) = e at hrun ⊢
      generalize Located.Eval.program budget reading.statements s'.machine = e' at hrun ⊢
      cases hrun with
      | done hdone =>
        obtain ⟨w', p', hw, hp, hn', -⟩ := hdone
        have hbroken := hn'.broken
        rw [hw.knowledge, hp] at hbroken
        exact ⟨rfl, after hbroken hfresh⟩
      | failed hsame hbroken => exact ⟨congrArg RunResult.stopped hsame, after hbroken hfresh⟩
      | exhausted hbroken => exact ⟨rfl, after hbroken hfresh⟩
  · simp only [Session.runReading, Located.Session.runReading, hempty]
    exact ⟨rfl, hrejected⟩

/-- A host function is offered under the same name. -/
theorem defineNative (h : SameSession w s s') (name : String) (host : Host) :
    SameSession w (s.defineNative name host.native) (s'.defineNative name host.native) := by
  obtain ⟨⟨hc, hscope, hpresent⟩, hid, hlimit, hfresh⟩ := h
  refine ⟨⟨{ hc with memory := ?_, nativeCount := ?_, natives := fun i => ?_ }, hscope, hpresent⟩,
    hid, hlimit, hfresh⟩
  · exact hc.memory.define name (hc.nativeCount ▸ .native _)
  · simp [Session.defineNative, Machine.defineNative, Located.Session.defineNative,
      Located.Machine.defineNative, hc.nativeCount]
  · simp only [Session.defineNative, Machine.defineNative, Located.Session.defineNative,
      Located.Machine.defineNative, Array.getElem?_push, hc.nativeCount]
    split
    · exact .some host.native_alike
    · exact hc.natives i

/-- What was written is taken away from both. -/
theorem drain (h : SameSession w s s') : SameSession w s.drain.2 s'.drain.2 := by
  obtain ⟨⟨hc, hscope, hpresent⟩, hid, hlimit, hfresh⟩ := h
  exact ⟨⟨{ hc with sink := congrArg (fun sink => sink.drain.2) hc.sink }, hscope, hpresent⟩, hid,
    hlimit, hfresh⟩

/-- Every action keeps two sessions in step. -/
theorem act (h : SameSession w s s') (a : Action) :
    (s.act a).1 = (s'.act a).1 ∧ ∃ w', SameSession w' (s.act a).2 (s'.act a).2 := by
  cases a with
  | run budget source =>
    have hrun := h.runReading budget (Reading.le_nextId source s.nextId) Reading.formed_of_accepted
    simp only [Session.act, Located.Session.act, Session.run, Located.Session.run, ← h.nextId]
    exact ⟨congrArg some hrun.1, hrun.2⟩
  | offer name host => exact ⟨rfl, w, h.defineNative name host⟩
  | drain => exact ⟨rfl, w, h.drain⟩

theorem trace_eq (h : SameSession w s s') (actions : List Action) :
    s.trace actions = s'.trace actions := by
  induction actions generalizing w s s' with
  | nil => rfl
  | cons a rest ih =>
    obtain ⟨hresult, w', h'⟩ := h.act a
    rw [Session.trace, Located.Session.trace, hresult, h'.related.corresponds.sink, ih h']

end SameSession

/-- Static scoping: whatever a host does with a session, its runs end in the same way and write the
same with frames and distances as with locations. -/
theorem Session.trace_eq_located (sink : Sink) (clock : Clock) (actions : List Action) :
    (Session.start sink clock).trace actions =
      (Located.Session.start sink clock).trace actions :=
  (SameSession.start sink clock).trace_eq actions

/-- Every session has one in step with it. -/
theorem Session.Reachable.same {s : Session} (h : s.Reachable) :
    ∃ w s', SameSession w s s' := by
  induction h with
  | start sink clock => exact ⟨_, _, .start sink clock⟩
  | act a _ ih =>
    obtain ⟨w, s', hs⟩ := ih
    obtain ⟨-, w', h'⟩ := hs.act a
    exact ⟨w', _, h'⟩

end LoxLang
