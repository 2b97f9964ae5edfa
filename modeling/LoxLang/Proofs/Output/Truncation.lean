import LoxLang.Proofs.Budgets.Larger
import LoxLang.Proofs.Output.Larger

/-!
# Sinks with little room

A sink that takes only so many bytes truncates the output of a run, and does nothing else to it: as
long as there is room the run goes as it would with an unlimited sink, and it stops with the fault
of the sink at the first byte for which there is none, wherever in the program that is and whatever
would have come of the run.

1. `Session.Prints`: the bytes that a run prints, of which there need not be an end;
   `Session.Prints.unique`, `Session.Prints.earlier`: they are a sequence.
2. `Session.writes_printed`: the run on any sink from the run on an unlimited one.
3. `Session.bounded_sink_truncates`: what becomes of a run on a sink with little room.
-/

namespace LoxLang

namespace Session

/-- The same session with another sink. -/
def onto (s : Session) (sink : Sink) : Session :=
  { s with machine := s.machine.onto sink }

/-- What the run of a source prints within a budget, if the sink is unlimited. -/
def printed (s : Session) (budget : Nat) (source : String) : Array UInt8 :=
  ((s.onto .unlimited).run budget source).2.machine.sink.written

/-- If the sink is unlimited, the run of a source gets to print this byte after so many others,
provided that it is given the time. A run that never ends may have a byte at every place. -/
def Prints (s : Session) (source : String) (place : Nat) (byte : UInt8) : Prop :=
  ∃ budget, (s.printed budget source)[place]? = some byte

variable {s : Session} {source : String}

/-! ## Runs as one write -/

/-- Whatever the sink, the run of what was read is as good as one write of the bytes: if the sink
takes them the run has the outcome given, and otherwise it stops as that write does. -/
structure Writes (s : Session) (budget : Nat) (reading : Reading) (bytes : Array UInt8)
    (outcome : RunResult × Session) : Prop where
  taken {sink after : Sink} : sink.flushFails = false → sink.write bytes = (none, after) →
    (s.onto sink).runReading budget reading = (outcome.1, outcome.2.onto after)
  refused {sink after : Sink} {fault : SinkFault} : sink.flushFails = false →
    sink.write bytes = (some fault, after) →
      ∃ t : Session, (s.onto sink).runReading budget reading = (.stopped (.output fault), t) ∧
        t.machine.sink = after

namespace Writes

variable {budget : Nat} {reading : Reading} {bytes : Array UInt8}

theorem accepted {distances : Distances} {ending : Outcome Unit} (herrors : reading.errors = [])
    (hresolve : resolve reading.statements = .ok distances)
    (h : (Eval.program budget reading.statements).Writes (s.machine.learn distances) bytes
      ending) :
    s.Writes budget reading bytes (ended reading.nextId ending) where
  taken := by
    intro sink after hflush hwrite
    refine (runReading_accepted (s.onto sink) budget herrors hresolve).trans ?_
    refine (congrArg (ended _) (h.taken hflush hwrite)).trans ?_
    cases ending <;> rfl
  refused := by
    intro sink after fault hflush hwrite
    obtain ⟨n, hstop, hsink⟩ := h.refused hflush hwrite
    refine ⟨⟨n, reading.nextId⟩, ?_, hsink⟩
    exact (runReading_accepted (s.onto sink) budget herrors hresolve).trans
      (congrArg (ended _) hstop)

theorem rejected {errors : List Diagnostic}
    (h : ∀ (s : Session) (budget : Nat), s.runReading budget reading =
      (.rejected errors, ⟨s.machine, reading.nextId⟩)) :
    s.Writes budget reading #[] (.rejected errors, ⟨s.machine, reading.nextId⟩) where
  taken := by
    intro sink after _ hwrite
    rw [sink.write_empty] at hwrite
    obtain ⟨-, rfl⟩ := Prod.mk.inj hwrite
    exact h (s.onto sink) budget
  refused := by
    intro sink after fault _ hwrite
    rw [sink.write_empty] at hwrite
    cases hwrite

/-- Within a larger budget the bytes of the smaller one come first. -/
theorem exists_of_le (s : Session) (reading : Reading) {n k : Nat} (hle : n ≤ k) :
    ∃ bytes more outcome outcome',
      s.Writes n reading bytes outcome ∧ s.Writes k reading (bytes ++ more) outcome' := by
  by_cases haccepted : ∃ distances, reading.errors = [] ∧
      resolve reading.statements = .ok distances
  · obtain ⟨distances, herrors, hresolve⟩ := haccepted
    cases Eval.outprints_program hle reading.statements (s.machine.learn distances) with
    | @same bytes ending hsmaller hlarger =>
      refine ⟨bytes, #[], _, ended reading.nextId ending, accepted herrors hresolve hsmaller, ?_⟩
      rw [Array.append_empty]
      exact accepted herrors hresolve hlarger
    | @further bytes more all n ending hsmaller hlarger hall =>
      exact ⟨bytes, more, _, _, accepted herrors hresolve hsmaller,
        hall ▸ accepted herrors hresolve hlarger⟩
  · obtain ⟨errors, hrejected⟩ := rejects fun distances herrors hresolve =>
      haccepted ⟨distances, herrors, hresolve⟩
    exact ⟨#[], #[], _, _, rejected hrejected, rejected hrejected⟩

variable {outcome : RunResult × Session}

theorem unlimited (h : s.Writes budget (Reading.ofSource source s.nextId) bytes outcome) :
    (s.onto .unlimited).run budget source = (outcome.1, outcome.2.onto ⟨bytes, none, false⟩) :=
  h.taken rfl (by simp [Sink.write, Sink.unlimited])

theorem printed_eq (h : s.Writes budget (Reading.ofSource source s.nextId) bytes outcome) :
    s.printed budget source = bytes :=
  congrArg (fun outcome => outcome.2.machine.sink.written) h.unlimited

end Writes

/-- The run of a source is as good as one write of what it prints to an unlimited sink. -/
theorem writes_printed (s : Session) (budget : Nat) (source : String) :
    s.Writes budget (Reading.ofSource source s.nextId) (s.printed budget source)
      ((s.onto .unlimited).run budget source) := by
  obtain ⟨bytes, _, outcome, _, h, -⟩ :=
    Writes.exists_of_le s (Reading.ofSource source s.nextId) (Nat.le_refl budget)
  rw [h.printed_eq, h.unlimited]
  exact ⟨h.taken, h.refused⟩

/-! ## The bytes of a run -/

/-- What is printed within a budget is printed within every larger one at the same places. -/
theorem getElem?_printed_of_le {n k : Nat} (hle : n ≤ k) {place : Nat} {byte : UInt8}
    (h : (s.printed n source)[place]? = some byte) :
    (s.printed k source)[place]? = some byte := by
  obtain ⟨bytes, more, _, _, hsmaller, hlarger⟩ :=
    Writes.exists_of_le s (Reading.ofSource source s.nextId) hle
  rw [hsmaller.printed_eq] at h
  obtain ⟨hplace, -⟩ := Array.getElem?_eq_some_iff.1 h
  rw [hlarger.printed_eq, Array.getElem?_append_left hplace, h]

namespace Prints

variable {place : Nat} {byte byte' : UInt8}

/-- There is one byte at a place. -/
theorem unique (h : s.Prints source place byte) (h' : s.Prints source place byte') :
    byte = byte' := by
  obtain ⟨n, hn⟩ := h
  obtain ⟨k, hk⟩ := h'
  have hlarger := getElem?_printed_of_le (Nat.le_max_left n k) hn
  have hlarger' := getElem?_printed_of_le (Nat.le_max_right n k) hk
  exact Option.some.inj (hlarger.symm.trans hlarger')

/-- There are bytes at all places before a byte. -/
theorem earlier (h : s.Prints source place byte) {before : Nat} (hbefore : before < place) :
    ∃ byte, s.Prints source before byte := by
  obtain ⟨budget, hbyte⟩ := h
  obtain ⟨hplace, -⟩ := Array.getElem?_eq_some_iff.1 hbyte
  exact ⟨_, budget, Array.getElem?_eq_getElem (Nat.lt_trans hbefore hplace)⟩

end Prints

/-! ## Sinks with little room -/

/-- A sink that has room for so many more bytes only truncates what a run prints. If the run prints
no more than that to an unlimited sink, all goes as it does there. Otherwise the run stops with the
fault of the sink, which has then kept as many bytes of the output as there was room for. -/
theorem bounded_sink_truncates (s : Session) (source : String) (before : Array UInt8)
    (room : Nat) :
    ((∀ byte, ¬ s.Prints source room byte) →
      ∀ budget, (s.onto ⟨before, some room, false⟩).run budget source =
        (((s.onto .unlimited).run budget source).1,
          ((s.onto .unlimited).run budget source).2.onto
            ⟨before ++ s.printed budget source, some (room - (s.printed budget source).size),
              false⟩)) ∧
    ((∃ byte, s.Prints source room byte) →
      ∃ enough kept after, kept.size = room ∧
        (∀ (place : Nat) (byte : UInt8), kept[place]? = some byte → s.Prints source place byte) ∧
        after.machine.sink = ⟨before ++ kept, some 0, false⟩ ∧
        ∀ budget, enough ≤ budget →
          (s.onto ⟨before, some room, false⟩).run budget source =
            (.stopped (.output .full), after)) := by
  constructor
  · intro hshort budget
    have hfits : (s.printed budget source).size ≤ room := by
      rcases Nat.lt_or_ge room (s.printed budget source).size with hover | hfits
      · exact absurd ⟨budget, Array.getElem?_eq_getElem hover⟩ (hshort _)
      · exact hfits
    exact (s.writes_printed budget source).taken rfl (Sink.write_fits hfits)
  · rintro ⟨byte, enough, hbyte⟩
    obtain ⟨hover, -⟩ := Array.getElem?_eq_some_iff.1 hbyte
    obtain ⟨after, hstop, hsink⟩ :=
      (s.writes_printed enough source).refused rfl (Sink.write_overflows hover)
    refine ⟨enough, (s.printed enough source).take room, after, ?_, ?_, hsink, ?_⟩
    · simp only [Array.take_eq_extract, Array.size_extract]
      omega
    · intro place byte hkept
      refine ⟨enough, ?_⟩
      rw [Array.take_eq_extract, Array.getElem?_extract] at hkept
      split at hkept
      · simpa using hkept
      · cases hkept
    · intro budget hle
      have hended : ((s.onto ⟨before, some room, false⟩).run enough source).1 ≠ .unfinished := by
        intro hunfinished
        cases hunfinished.symm.trans (congrArg Prod.fst hstop)
      exact (run_of_le _ _ hle hended).trans hstop

/-- A loop without an end stops in the middle of a line. -/
example :
    let outcome := (start ⟨#[], some 3, false⟩ 0).run 9 "while (true) print \"a\";"
    outcome.1 = .stopped (.output .full) ∧
      outcome.2.machine.sink.written = "a\na".toUTF8.data := by
  decide +kernel

end Session

end LoxLang
