import LoxLang.Proofs.Output.Silent
import LoxLang.Proofs.Values.Endings

/-!
# Output in one write

A step may write many times, in whatever calls and loops it consists of. To its sink that is as good
as a single write of all that it would print: a sink that takes all of it sees the step to its end,
and a sink that refuses the single write stops the step with the same fault and the same contents.

1. `Sink.write_append_of_taken`, `Sink.write_append_of_refused`: two writes are as good as one.
2. `Eval.Writes`: what a step would print on a machine, and how it would end.
3. `Eval.Writes.bind_done`, `Eval.Writes.bind_failed`, `Eval.Writes.bind_exhausted`: steps one after
   another.
-/

namespace LoxLang

variable {α β : Type}

namespace Sink

variable {sink after : Sink} {written first bytes : Array UInt8} {room : Nat} {flushFails : Bool}
  {fault : SinkFault}

theorem write_empty (sink : Sink) : sink.write #[] = (none, sink) := by
  obtain ⟨written, room, flushFails⟩ := sink
  cases room with
  | none => simp [write]
  | some room => simp [write]

theorem flushFails_write (sink : Sink) (bytes : Array UInt8) :
    (sink.write bytes).2.flushFails = sink.flushFails := by
  unfold write
  split <;> rfl

/-- A text for which there is room is taken as it is. -/
theorem write_fits (h : bytes.size ≤ room) :
    (⟨written, some room, flushFails⟩ : Sink).write bytes =
      (none, ⟨written ++ bytes, some (room - bytes.size), flushFails⟩) := by
  have hkept : bytes.take room = bytes := by simp [h]
  simp [write, hkept, h]

/-- Of a text for which there is not enough room, as much is kept as there is room for. -/
theorem write_overflows (h : room < bytes.size) :
    (⟨written, some room, flushFails⟩ : Sink).write bytes =
      (some .full, ⟨written ++ bytes.take room, some 0, flushFails⟩) := by
  have hkept : (bytes.take room).size = room := by simp; omega
  simp [write, hkept, Nat.not_le.2 h]

theorem write_append_of_taken (h : sink.write first = (none, after)) (second : Array UInt8) :
    sink.write (first ++ second) = after.write second := by
  obtain ⟨written, room, flushFails⟩ := sink
  cases room with
  | none =>
    obtain ⟨-, rfl⟩ := Prod.mk.inj h
    simp [write, Array.append_assoc]
  | some room =>
    rcases Nat.lt_or_ge room first.size with hover | hfirst
    · rw [write_overflows hover] at h
      cases h
    · rw [write_fits hfirst] at h
      obtain ⟨-, rfl⟩ := Prod.mk.inj h
      rcases Nat.lt_or_ge (room - first.size) second.size with hover | hsecond
      · have hboth : room < (first ++ second).size := by simp; omega
        have hkept : (first ++ second).take room = first ++ second.take (room - first.size) := by
          simp [Array.extract_append, Array.extract_eq_self_of_le hfirst]
        rw [write_overflows hover, write_overflows hboth, hkept, Array.append_assoc]
      · have hboth : (first ++ second).size ≤ room := by simp; omega
        rw [write_fits hsecond, write_fits hboth, Array.append_assoc, Array.size_append,
          Nat.sub_sub]

/-- What is refused is refused whatever would come after it, and fills the sink. -/
theorem write_append_of_refused (h : sink.write first = (some fault, after))
    (second : Array UInt8) : sink.write (first ++ second) = (some fault, after) := by
  obtain ⟨written, room, flushFails⟩ := sink
  cases room with
  | none => cases h
  | some room =>
    rcases Nat.lt_or_ge room first.size with hover | hfirst
    · have hboth : room < (first ++ second).size := by simp; omega
      have hkept : (first ++ second).take room = first.take room := by
        simp [Array.extract_append]; omega
      rw [← h, write_overflows hover, write_overflows hboth, hkept]
    · rw [write_fits hfirst] at h
      cases h

end Sink

namespace Eval

/-- On this machine, whatever its sink, the step does as well to write the bytes all at once: if the
sink takes them the step comes to the end given, and otherwise it stops as that write does. -/
structure Writes (step : Eval α) (m : Machine) (bytes : Array UInt8) (ending : Outcome α) :
    Prop where
  taken {sink after : Sink} : sink.flushFails = false → sink.write bytes = (none, after) →
    step (m.onto sink) = ending.onto after
  refused {sink after : Sink} {fault : SinkFault} : sink.flushFails = false →
    sink.write bytes = (some fault, after) →
      ∃ n, step (m.onto sink) = .failed (.output fault) n ∧ n.sink = after

namespace Writes

variable {step : Eval α} {m n : Machine} {bytes more : Array UInt8} {ending : Outcome α}

/-! ## Single steps -/

/-- A step that does the same on every sink prints nothing. -/
theorem nothing (h : ∀ sink : Sink, sink.flushFails = false →
    step (m.onto sink) = ending.onto sink) : step.Writes m #[] ending where
  taken := by
    intro sink after hflush hwrite
    rw [sink.write_empty] at hwrite
    obtain ⟨-, rfl⟩ := Prod.mk.inj hwrite
    exact h sink hflush
  refused := by
    intro sink after fault _ hwrite
    rw [sink.write_empty] at hwrite
    cases hwrite

theorem of_silent (h : step.Silent) (m : Machine) : step.Writes m #[] (step m) :=
  nothing fun sink _ => h m sink

theorem printLine (text : String) (m : Machine) :
    (Eval.printLine text).Writes m (text ++ "\n").toUTF8.data (.done () m) where
  taken := by
    intro sink after _ hwrite
    simp only [Eval.printLine, Machine.sink_onto, hwrite]
    rfl
  refused := by
    intro sink after fault _ hwrite
    refine ⟨m.onto after, ?_, rfl⟩
    simp only [Eval.printLine, Machine.sink_onto, hwrite]
    rfl

theorem flush (m : Machine) : Eval.flush.Writes m #[] (.done () m) := by
  refine nothing fun sink hflush => ?_
  simp only [Eval.flush, Sink.flush, Machine.sink_onto, hflush]
  rfl

/-! ## Steps one after another -/

variable {first : Eval α} {next : α → Eval β}

/-- The second step goes on where the first one ends, and writes to what the first one leaves of the
sink. -/
theorem bind_done {a : α} {ending : Outcome β} (h : first.Writes m bytes (.done a n))
    (hnext : (next a).Writes n more ending) :
    Writes (first >>= next) m (bytes ++ more) ending where
  taken := by
    intro sink after hflush hwrite
    have hrest := sink.flushFails_write bytes
    rcases hfirst : sink.write bytes with ⟨_ | fault, rest⟩
    · rw [hfirst, hflush] at hrest
      rw [Sink.write_append_of_taken hfirst] at hwrite
      exact (Step.bind_of_done (h.taken hflush hfirst)).trans (hnext.taken hrest hwrite)
    · rw [Sink.write_append_of_refused hfirst] at hwrite
      cases hwrite
  refused := by
    intro sink after fault hflush hwrite
    have hrest := sink.flushFails_write bytes
    rcases hfirst : sink.write bytes with ⟨_ | earlier, rest⟩
    · rw [hfirst, hflush] at hrest
      rw [Sink.write_append_of_taken hfirst] at hwrite
      obtain ⟨k, hstop, hsink⟩ := hnext.refused hrest hwrite
      exact ⟨k, (Step.bind_of_done (h.taken hflush hfirst)).trans hstop, hsink⟩
    · rw [Sink.write_append_of_refused hfirst] at hwrite
      obtain ⟨k, hstop, hsink⟩ := h.refused hflush (hfirst.trans hwrite)
      exact ⟨k, Step.bind_of_failed hstop, hsink⟩

theorem bind_failed {failure : Failure} (h : first.Writes m bytes (.failed failure n))
    (next : α → Eval β) : Writes (first >>= next) m bytes (.failed failure n) where
  taken hflush hwrite := Step.bind_of_failed (h.taken hflush hwrite)
  refused hflush hwrite := by
    obtain ⟨k, hstop, hsink⟩ := h.refused hflush hwrite
    exact ⟨k, Step.bind_of_failed hstop, hsink⟩

theorem bind_exhausted (h : first.Writes m bytes (.exhausted n)) (next : α → Eval β) :
    Writes (first >>= next) m bytes (.exhausted n) where
  taken hflush hwrite := Step.bind_of_exhausted (h.taken hflush hwrite)
  refused hflush hwrite := by
    obtain ⟨k, hstop, hsink⟩ := h.refused hflush hwrite
    exact ⟨k, Step.bind_of_failed hstop, hsink⟩

/-! ## Scopes and calls -/

/-- A step may be entered and left in ways that do not touch the sink. -/
theorem enclosed {around : Eval α} {entered : Machine} {leave : Machine → Machine}
    (h : step.Writes entered bytes ending)
    (haround : ∀ sink, around (m.onto sink) = (step (entered.onto sink)).mapMachine leave)
    (hleave : ∀ n sink, leave (n.onto sink) = (leave n).onto sink) :
    around.Writes m bytes (ending.mapMachine leave) where
  taken := by
    intro sink after hflush hwrite
    rw [haround, h.taken hflush hwrite]
    cases ending with
    | done value n => exact congrArg (Ending.done value) (hleave n after)
    | failed failure n => exact congrArg (Ending.failed failure) (hleave n after)
    | exhausted n => exact congrArg Ending.exhausted (hleave n after)
  refused := by
    intro sink after fault hflush hwrite
    obtain ⟨k, hstop, hsink⟩ := h.refused hflush hwrite
    refine ⟨leave k, by rw [haround, hstop]; rfl, ?_⟩
    exact (congrArg Machine.sink (hleave k k.sink)).trans hsink

theorem within {scope : Scope} (h : step.Writes { m with scope := scope } bytes ending) :
    (Eval.within scope step).Writes m bytes
      (ending.mapMachine fun n => { n with scope := m.scope }) :=
  h.enclosed (fun _ => rfl) fun _ _ => rfl

theorem counted (h : step.Writes { m with depth := m.depth + 1 } bytes ending) :
    (Eval.counted step).Writes m bytes
      (ending.mapMachine fun n => { n with depth := n.depth - 1 }) :=
  h.enclosed (fun _ => rfl) fun _ _ => rfl

end Writes

end Eval

end LoxLang
