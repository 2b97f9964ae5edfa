import LoxLang.Proofs.Locations.Sessions
import LoxLang.Proofs.Splitting.Evaluation
import LoxLang.Proofs.Splitting.Readings
import LoxLang.Proofs.Splitting.Resolving

/-!
# Programs in two parts

Whether two sources are run one after the other or as one, with a line end between them, makes no
difference but to the lines of the second.

1. `Session.Reachable.steady`: every session is like itself, whatever was run in it.
2. `Session.run_append`: two sources and the one they make up.
-/

namespace LoxLang

/-- A source without errors, which is run whenever its turn comes. -/
def Accepted (source : String) : Prop :=
  (Reading.ofSource source 0).errors = [] ∧
    ∃ distances, resolve (Reading.ofSource source 0).statements = .ok distances

/-- A source without errors has none wherever its numbers begin. -/
theorem Accepted.reading {source : String} (h : Accepted source) (first : Nat) :
    (Reading.ofSource source first).errors = [] ∧
      ∃ distances, resolve (Reading.ofSource source first).statements = .ok distances := by
  obtain ⟨herrors, distances, hresolve⟩ := h
  have hreading := Reading.ofSource_renumbered source 0 first
  obtain ⟨distances', hresolve', -⟩ := resolve_moveAll (.on first) hresolve
  rw [Nat.zero_add] at hreading
  rw [hreading]
  exact ⟨herrors, distances', hresolve'⟩

namespace Lowering

variable {w : Lowering} {m m' : Machine}

/-- Both machines come to know about more mentions. -/
theorem Alike.know (h : w.Alike m m') {w' : Lowering} (hw : w.Le w') :
    w'.Alike { m with distances := w'.known } { m' with distances := w'.known' } where
  frames := h.frames.imp fun _ _ hb => hb.mono fun hv => hv.mono hw.likeness
  objects := h.objects.imp fun _ _ hb => hb.mono fun hv => hv.mono hw.likeness
  nextId := h.nextId
  natives := h.natives
  hosts := h.hosts
  clock := h.clock
  scope := h.scope
  depth := h.depth
  sink := h.sink
  known := rfl
  known' := rfl

end Lowering

namespace Session

/-! ## Sessions alike -/

/-- A session beside itself: what is the same about a text and the text so many lines lower. -/
def lowering (s : Session) (lines : Nat) : Lowering :=
  ⟨lines, s.nextId, s.machine.distances, s.machine.distances, fun _ _ => rfl⟩

/-- All functions in a session have been read, and nothing is known about what has not. -/
structure Steady (s : Session) : Prop where
  alike : (s.lowering 0).Alike s.machine s.machine
  fresh : ∀ id, s.nextId ≤ id → s.machine.distances[id]? = none

theorem Steady.start (sink : Sink) (clock : Clock) : (start sink clock).Steady where
  fresh := by simp [Session.start, Machine.start]
  alike :=
    { frames := .cons (.cons ⟨rfl, .native 0⟩ .nil) .nil
      objects := .nil
      nextId := rfl
      natives := rfl
      hosts := by
        intro native h
        obtain rfl : native = ⟨0, .clock⟩ := by simpa [Session.start, Machine.start] using h
        exact ⟨rfl, .clock⟩
      clock := rfl
      scope := rfl
      depth := rfl
      sink := rfl
      known := rfl
      known' := rfl }

namespace Steady

variable {s : Session}

/-- A source without errors has been read, and is about to be run. -/
theorem learn (h : s.Steady) {source : String} {distances : Distances}
    (herrors : (Reading.ofSource source s.nextId).errors = [])
    (hresolve : resolve (Reading.ofSource source s.nextId).statements = .ok distances) :
    Steady ⟨s.machine.learn distances, (Reading.ofSource source s.nextId).nextId⟩ where
  alike := by
    obtain ⟨-, hn⟩ := Reading.formed_of_accepted herrors
    exact h.alike.know ⟨id, hn.le⟩
  fresh := by
    obtain ⟨-, hn⟩ := Reading.formed_of_accepted herrors
    intro id hid
    have hnone : distances[id]? = none := distances_of_resolve hresolve fun hm => by
      obtain ⟨o, ho, rfl⟩ := List.mem_map.1 hm
      exact absurd (hn.within o ho).2 (Nat.not_lt_of_le hid)
    simp only [Machine.learn]
    rw [Std.TreeMap.getElem?_union, hnone, Option.none_or]
    exact h.fresh id (Nat.le_trans hn.le hid)

/-- A machine that is like itself when statements begin is so when they end. -/
theorem sequence {w : Lowering} {m : Machine} (hm : w.Alike m m) (budget : Nat)
    {statements : List Stmt} (hread : w.Reads (Stmt.allMentions statements)) :
    w.Alike (Eval.sequence budget statements m).machine
      (Eval.sequence budget statements m).machine := by
  have hrun := Lowering.simulates_sequence budget (.inl rfl) statements hread m m hm
  rw [Stmt.moveAll_zero] at hrun
  generalize Eval.sequence budget statements m = e at hrun ⊢
  cases hrun with
  | done h => exact h.1
  | failed _ h => exact h
  | exhausted h => exact h

/-- A session is steady whichever way its program ends. -/
theorem ended {m : Machine} {next : Nat} (h : Steady ⟨m, next⟩) (budget : Nat)
    {statements : List Stmt}
    (hread : ∀ o ∈ Stmt.allMentions statements, o.id < next) :
    (Session.ended next (Eval.program budget statements m)).2.Steady := by
  have hn := sequence h.alike budget hread
  have hsession : (Session.ended next (Eval.program budget statements m)).2 =
      ⟨(Eval.sequence budget statements m).machine, next⟩ := by
    rw [ended_snd, Eval.machine_program]
  rw [hsession]
  have hknown : (Eval.sequence budget statements m).machine.distances = m.distances := hn.known
  exact ⟨hn.know ⟨id, Nat.le_refl _⟩, fun id hid => hknown ▸ h.fresh id hid⟩

theorem run (h : s.Steady) (budget : Nat) (source : String) : (s.run budget source).2.Steady := by
  have hrejected : Steady ⟨s.machine, (Reading.ofSource source s.nextId).nextId⟩ :=
    have hle := Reading.le_nextId source s.nextId
    ⟨h.alike.know ⟨id, hle⟩, fun id hid => h.fresh id (Nat.le_trans hle hid)⟩
  unfold Session.run
  by_cases herrors : (Reading.ofSource source s.nextId).errors = []
  · cases hresolve : resolve (Reading.ofSource source s.nextId).statements with
    | error errors =>
      rw [runReading_rejected s budget fun _ _ hok => nomatch hresolve.symm.trans hok]
      exact hrejected
    | ok distances =>
      obtain ⟨-, hn⟩ := Reading.formed_of_accepted herrors
      rw [runReading_accepted s budget herrors hresolve]
      exact (h.learn herrors hresolve).ended budget fun o ho => (hn.within o ho).2
  · rw [runReading_rejected s budget fun _ hok => absurd hok herrors]
    exact hrejected

theorem defineNative (h : s.Steady) (name : String) (host : Host) :
    (s.defineNative name host.native).Steady where
  alike :=
    { h.alike.put 0 name (.native s.machine.natives.size) with
      natives := rfl
      hosts := by
        intro native hm
        rcases Array.mem_push.1 hm with hm | rfl
        · exact h.alike.hosts native hm
        · exact host.native_alike }
  fresh := h.fresh

theorem drain (h : s.Steady) : s.drain.2.Steady :=
  ⟨{ h.alike with sink := rfl }, h.fresh⟩

end Steady

/-- Every session is steady, whatever was run in it. -/
theorem Reachable.steady {s : Session} (h : s.Reachable) : s.Steady := by
  induction h with
  | start sink clock => exact .start sink clock
  | act a _ ih =>
    cases a with
    | run budget source => exact ih.run budget source
    | offer name host => exact ih.defineNative name host
    | drain => exact ih.drain

end Session

/-! ## Two sources -/

/-- The same end of a run, the line of a failure possibly so many lines lower. -/
inductive RunResult.Lowered (lines : Nat) : RunResult → RunResult → Prop
  | success : Lowered lines .success .success
  | stopped (failure : Failure) {k : Nat} : k = 0 ∨ k = lines →
      Lowered lines (.stopped failure) (.stopped (failure.lower k))
  | unfinished : Lowered lines .unfinished .unfinished

/-- Two machines that hold the same in all places, some of their functions so many lines lower. -/
def Machine.Lowered (lines : Nat) (m m' : Machine) : Prop :=
  ∃ w : Lowering, w.lines = lines ∧ w.Alike m m'

/-- All statements were run; at most the flush behind them failed. -/
def RunResult.Complete : RunResult → Prop
  | .success => True
  | .stopped failure => failure = .output .notFlushed
  | .rejected _ | .unfinished => False

instance : (result : RunResult) → Decidable result.Complete
  | .success => .isTrue trivial
  | .stopped failure => inferInstanceAs (Decidable (failure = .output .notFlushed))
  | .rejected _ => .isFalse id
  | .unfinished => .isFalse id

namespace Session

/-- Two runs that end in the same way, but for a text that is so many lines lower in the second. -/
structure SameRun (lines : Nat) (run run' : RunResult × Session) : Prop where
  result : run.1.Lowered lines run'.1
  machine : run.2.machine.Lowered lines run'.2.machine
  nextId : run.2.nextId = run'.2.nextId

theorem lower_zero (failure : Failure) : failure.lower 0 = failure := by
  cases failure <;> rfl

/-- A program and the program so many lines lower. -/
theorem sameRun_ended {w : Lowering} {m m' : Machine} (hm : w.Alike m m') {lines : Nat}
    (hk : w.Shifts lines) (budget next : Nat) {statements : List Stmt}
    (hread : w.Reads (Stmt.allMentions statements)) :
    SameRun w.lines (ended next (Eval.program budget statements m))
      (ended next (Eval.program budget (Stmt.moveAll (.down lines) statements) m')) := by
  have hrun := Lowering.simulates_sequence budget hk statements hread m m' hm
  rw [Eval.program_eq, Eval.program_eq]
  change SameRun w.lines
    (ended next (Step.bind (Eval.sequence budget statements) (fun _ => Eval.flush) m))
    (ended next (Step.bind (Eval.sequence budget (Stmt.moveAll (.down lines) statements))
      (fun _ => Eval.flush) m'))
  unfold Step.bind
  generalize Eval.sequence budget statements m = e at hrun ⊢
  generalize Eval.sequence budget (Stmt.moveAll (.down lines) statements) m' = e' at hrun ⊢
  cases hrun with
  | done h =>
    simp only [Eval.flush, ← h.1.sink]
    split
    · exact ⟨.success, ⟨w, rfl, h.1⟩, rfl⟩
    · exact ⟨.stopped (.output _) (.inl rfl), ⟨w, rfl, h.1⟩, rfl⟩
  | failed hf h =>
    obtain ⟨-, k, hk, rfl⟩ := hf
    exact ⟨.stopped _ hk, ⟨w, rfl, h⟩, rfl⟩
  | exhausted h => exact ⟨.unfinished, ⟨w, rfl, h⟩, rfl⟩

/-- The run of a source without errors. -/
theorem run_accepted (s : Session) (budget : Nat) {source : String} (h : Accepted source) :
    ∃ distances, resolve (Reading.ofSource source s.nextId).statements = .ok distances ∧
      s.run budget source =
        ended (Reading.ofSource source s.nextId).nextId
          (Eval.program budget (Reading.ofSource source s.nextId).statements
            (s.machine.learn distances)) := by
  obtain ⟨herrors, distances, hresolve⟩ := h.reading s.nextId
  exact ⟨distances, hresolve, runReading_accepted s budget herrors hresolve⟩

/-- A source that is read behind another is run as that one and then itself, moved down. -/
theorem run_whole (s : Session) (budget : Nat) {before after : String} {known distances : Distances}
    (hbefore : Accepted before) (hafter : Accepted after)
    (hknown : resolve (Reading.ofSource before s.nextId).statements = .ok known)
    (hdistances : resolve (Reading.ofSource after
      (Reading.ofSource before s.nextId).nextId).statements = .ok distances) :
    ∃ all : Distances, (∀ id : Nat, all[id]? = distances[id]?.or known[id]?) ∧
      s.run budget (before ++ "\n" ++ after) =
        ended (Reading.ofSource after (Reading.ofSource before s.nextId).nextId).nextId
          ((Eval.sequence budget (Reading.ofSource before s.nextId).statements >>= fun _ =>
              Eval.program budget (Stmt.moveAll (.down (lineEnds before + 1))
                (Reading.ofSource after (Reading.ofSource before s.nextId).nextId).statements))
            (s.machine.learn all)) := by
  obtain ⟨all, hall, hagree⟩ := resolve_append (lineEnds before + 1) hknown hdistances
  have hreading := Reading.ofSource_append (hbefore.reading s.nextId).1 (hafter.reading _).1
  refine ⟨all, hagree, ?_⟩
  unfold Session.run
  rw [hreading, runReading_accepted s budget rfl hall]
  simp only [Eval.program_eq, Eval.sequence_append, Step.bind_assoc]

/-- The run of a source so many lines lower. -/
theorem run_lowered (s : Session) (budget lines : Nat) {source : String} {distances : Distances}
    (h : Accepted source)
    (hresolve : resolve (Reading.ofSource source s.nextId).statements = .ok distances) :
    ∃ distances' : Distances, (∀ id : Nat, distances'[id]? = distances[id]?) ∧
      s.run budget (lowered lines source) =
        ended (Reading.ofSource source s.nextId).nextId
          (Eval.program budget
            (Stmt.moveAll (.down lines) (Reading.ofSource source s.nextId).statements)
            (s.machine.learn distances')) := by
  obtain ⟨distances', hresolve', hagree⟩ := resolve_moveAll (.down lines) hresolve
  have hreading := Reading.ofSource_lowered lines (h.reading s.nextId).1
  refine ⟨distances', hagree, ?_⟩
  unfold Session.run
  rw [hreading, runReading_accepted s budget rfl hresolve']

/-- One machine comes to know what the other one has known before. -/
theorem alike_learn {w : Lowering} {m m' : Machine} (hm : w.Alike m m') (hlines : w.lines = 0)
    (lines : Nat) {next : Nat} (hnext : w.limit ≤ next) {distances : Distances}
    (hall : ∀ id : Nat, (w.known ∪ distances)[id]? = w.known'[id]?) :
    Lowering.Alike ⟨lines, next, w.known ∪ distances, w.known', fun id _ => hall id⟩
      (m.learn distances) m' := by
  have hlearn : m.learn distances = { m with distances := w.known ∪ distances } := by
    rw [Machine.learn, hm.known]
  have hsame : m' = { m' with distances := w.known' } := by rw [← hm.known']
  rw [hlearn, hsame]
  refine hm.know ⟨fun hk => .inl ?_, hnext⟩
  simpa [Lowering.Shifts, hlines] using hk

/-- The second of two sources, on a machine that has run the first, and on one that knows about both
from the beginning. -/
theorem sameRun_after {w : Lowering} {m m' : Machine} (hm : w.Alike m m') (hlines : w.lines = 0)
    (budget lines : Nat) {source : String} {distances : Distances} (h : Accepted source)
    (hresolve : resolve (Reading.ofSource source w.limit).statements = .ok distances)
    (hall : ∀ id : Nat, w.known'[id]? = distances[id]?.or w.known[id]?) :
    let whole := ended (Reading.ofSource source w.limit).nextId
      (Eval.program budget (Stmt.moveAll (.down lines) (Reading.ofSource source w.limit).statements)
        m')
    SameRun 0 (run budget (lowered lines source) ⟨m, w.limit⟩) whole ∧
      SameRun lines (run budget source ⟨m, w.limit⟩) whole := by
  have herrors := (h.reading w.limit).1
  obtain ⟨-, hn⟩ := Reading.formed_of_accepted herrors
  have hknows {distances' : Distances} (hd : ∀ id : Nat, distances'[id]? = distances[id]?)
      (id : Nat) : (w.known ∪ distances')[id]? = w.known'[id]? := by
    rw [Std.TreeMap.getElem?_union, hd, hall]
  constructor
  · obtain ⟨distances', hd, hrun⟩ := run_lowered ⟨m, w.limit⟩ budget lines h hresolve
    have hlowered := Reading.ofSource_lowered lines herrors
    obtain ⟨-, hread⟩ := Reading.formed_of_accepted (congrArg Reading.errors hlowered)
    rw [hlowered] at hread
    have hsame := sameRun_ended (alike_learn hm hlines 0 hn.le (hknows hd)) (.inl rfl) budget
      (Reading.ofSource source w.limit).nextId fun o ho => (hread.within o ho).2
    rw [Stmt.moveAll_zero] at hsame
    rwa [hrun]
  · have hsame := sameRun_ended (alike_learn hm hlines lines hn.le (hknows fun _ => rfl))
      (.inr rfl) budget (Reading.ofSource source w.limit).nextId fun o ho => (hn.within o ho).2
    rwa [Session.run, runReading_accepted ⟨m, w.limit⟩ budget herrors hresolve]

/-- Two sources one after the other, and both as one with a line end between them. If the
statements of the first all run then the second goes on in the same way, with its lines as they are
in the whole source; if not then the whole ends as the first does. -/
theorem run_append {s : Session} (h : s.Reachable) (budget : Nat) {before after : String}
    (hbefore : Accepted before) (hafter : Accepted after) :
    ((s.run budget before).1.Complete →
      SameRun 0 ((s.run budget before).2.run budget (lowered (lineEnds before + 1) after))
          (s.run budget (before ++ "\n" ++ after)) ∧
        SameRun (lineEnds before + 1) ((s.run budget before).2.run budget after)
          (s.run budget (before ++ "\n" ++ after))) ∧
      (¬(s.run budget before).1.Complete →
        (s.run budget (before ++ "\n" ++ after)).1 = (s.run budget before).1 ∧
          Machine.Lowered 0 (s.run budget before).2.machine
            (s.run budget (before ++ "\n" ++ after)).2.machine) := by
  obtain ⟨known, hknown, hfirst⟩ := s.run_accepted budget hbefore
  obtain ⟨-, hn⟩ := Reading.formed_of_accepted (hbefore.reading s.nextId).1
  obtain ⟨herrors', distances, hdistances⟩ :=
    hafter.reading (Reading.ofSource before s.nextId).nextId
  obtain ⟨-, hn'⟩ := Reading.formed_of_accepted herrors'
  obtain ⟨all, hall, hwhole⟩ := s.run_whole budget hbefore hafter hknown hdistances
  have hagree : ∀ id < (Reading.ofSource before s.nextId).nextId,
      (s.machine.distances ∪ known)[id]? = (s.machine.distances ∪ all)[id]? := by
    intro id hid
    have hnone : distances[id]? = none := distances_of_resolve hdistances fun hm => by
      obtain ⟨o, ho, rfl⟩ := List.mem_map.1 hm
      exact absurd hid (Nat.not_lt_of_le (hn'.within o ho).1)
    rw [Std.TreeMap.getElem?_union, Std.TreeMap.getElem?_union, hall, hnone, Option.none_or]
  let w : Lowering := ⟨0, (Reading.ofSource before s.nextId).nextId, s.machine.distances ∪ known,
    s.machine.distances ∪ all, hagree⟩
  have hm : w.Alike (s.machine.learn known) (s.machine.learn all) :=
    h.steady.alike.know ⟨id, hn.le⟩
  have hrun := Lowering.simulates_sequence budget (.inl rfl)
    (Reading.ofSource before s.nextId).statements (fun o ho => (hn.within o ho).2) _ _ hm
  rw [Stmt.moveAll_zero] at hrun
  rw [hfirst, hwhole, Eval.program_eq]
  simp only [bind, Step.bind]
  generalize Eval.sequence budget (Reading.ofSource before s.nextId).statements
    (s.machine.learn known) = e at hrun ⊢
  generalize Eval.sequence budget (Reading.ofSource before s.nextId).statements
    (s.machine.learn all) = e' at hrun ⊢
  cases hrun with
  | @done _ m _ m' hdone =>
    have hsecond := sameRun_after hdone.1 rfl budget (lineEnds before + 1) hafter hdistances
      fun id => by
        rw [Std.TreeMap.getElem?_union, Std.TreeMap.getElem?_union, hall, Option.or_assoc]
    simp only [Eval.flush, Sink.flush]
    cases m.sink.flushFails with
    | false => exact ⟨fun _ => hsecond, fun h => absurd trivial h⟩
    | true => exact ⟨fun _ => hsecond, fun h => (h rfl).elim⟩
  | failed hf hbroken =>
    obtain ⟨hflushed, k, hk, rfl⟩ := hf
    obtain rfl : k = 0 := hk.elim id id
    simp only [ended, lower_zero, true_and]
    exact ⟨fun hcomplete => absurd hcomplete hflushed, fun _ => ⟨w, rfl, hbroken⟩⟩
  | exhausted hbroken =>
    simp only [ended, true_and]
    exact ⟨False.elim, fun _ => ⟨w, rfl, hbroken⟩⟩

/-- A function of the first source is called by the second, which then stops in its second line; and
where the first source stops, the second is not run. -/
theorem run_append_start :
    let s := start .unlimited 0
    let before := "fun f() \x7b return \"x\"; \x7d\n"
    let after := "print f();\nprint g;"
    SameRun 2 ((s.run 20 before).2.run 20 after) (s.run 20 (before ++ "\n" ++ after)) ∧
      (s.run 20 (after ++ "\n" ++ before)).1 = (s.run 20 after).1 := by
  have hstart : (start .unlimited 0).Reachable := .start _ _
  have hbefore : Accepted "fun f() \x7b return \"x\"; \x7d\n" :=
    ⟨by decide +kernel, _, resolve_eq_ok.2 ⟨by decide +kernel, rfl⟩⟩
  have hafter : Accepted "print f();\nprint g;" :=
    ⟨by decide +kernel, _, resolve_eq_ok.2 ⟨by decide +kernel, rfl⟩⟩
  exact ⟨((run_append hstart 20 hbefore hafter).1 (by decide +kernel)).2,
    ((run_append hstart 20 hafter hbefore).2 (by decide +kernel)).1⟩

end Session

end LoxLang
