import LoxLang.Machine.Fault

/-!
# Output

A sink takes bytes until it has no room; of a text that does not fit it keeps what does.
-/

namespace LoxLang

/-- A place for output: what was written and not yet taken away, how many more bytes there is room
for (no number is no limit), and whether flushing fails. -/
structure Sink where
  written : Array UInt8
  room : Option Nat
  flushFails : Bool
  deriving DecidableEq, Repr

namespace Sink

/-- A sink without limit. -/
def unlimited : Sink :=
  ⟨#[], none, false⟩

/-- Writes as many of the bytes as there is room for; says so if that is not all of them. -/
def write (sink : Sink) (bytes : Array UInt8) : Option SinkFault × Sink :=
  match sink.room with
  | none => (none, { sink with written := sink.written ++ bytes })
  | some room =>
    let kept := bytes.take room
    let sink := { sink with written := sink.written ++ kept, room := some (room - kept.size) }
    (if bytes.size ≤ room then none else some .full, sink)

/-- Passes on what was written. -/
def flush (sink : Sink) : Option SinkFault :=
  if sink.flushFails then some .notFlushed else none

/-- Takes away what was written. -/
def drain (sink : Sink) : Array UInt8 × Sink :=
  (sink.written, { sink with written := #[] })

end Sink

end LoxLang
