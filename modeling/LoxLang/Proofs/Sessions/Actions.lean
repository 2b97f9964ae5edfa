import LoxLang.Proofs.Values.Alike
import LoxLang.Session

/-!
# What happens to sessions

A session is used by a host, which runs sources, offers functions and takes away what was written.

1. `Session.Reachable`: the sessions that come of it.
2. `Session.runReading_accepted`, `Session.runReading_rejected`: the two kinds of runs.
-/

namespace LoxLang

/-- A function that a host offers. It depends on its arguments alone, and cannot look into the
functions among them:

* `arity`: how many arguments it takes;
* `run`: the value that it computes, or the message with which it refuses. No machine is among what
  it gets, so that it neither reads nor writes the fields of objects, and it keeps no state from one
  call to the next;
* `blind`: for arguments that differ only inside functions, results that differ only there. -/
structure Host where
  arity : Nat
  run : {σ : Type} → List (Value σ) → Except String (Value σ)
  blind : ∀ {σ τ : Type} (l : Likeness σ τ) (vs : List (Value σ)) (vs' : List (Value τ)),
    List.Forall₂ (Value.Alike l) vs vs' → SameResult (Value.Alike l) (run vs) (run vs')

namespace Host

variable {σ τ : Type}

/-- The function as a machine knows it. -/
def native (host : Host) : Native σ :=
  ⟨host.arity, .host host.run⟩

theorem native_alike (host : Host) : (host.native : Native σ).Alike (host.native : Native τ) :=
  ⟨rfl, .host host.blind⟩

end Host

/-- What a host does with a session. -/
inductive Action where
  /-- Runs a source within a budget. -/
  | run (budget : Nat) (source : String)
  /-- Offers a function as a global, one that neither keeps a state nor touches the fields of
  objects. -/
  | offer (name : String) (host : Host)
  /-- Takes away what has been written. -/
  | drain

namespace Session

/-- The session after an action, and how a run ended. -/
def act : Action → Session → Option RunResult × Session
  | .run budget source, s => (some (s.run budget source).1, (s.run budget source).2)
  | .offer name host, s => (none, s.defineNative name host.native)
  | .drain, s => (none, s.drain.2)

/-- All that can be seen of a session from outside: after each action, how a run ended and what the
sink holds. -/
def trace : List Action → Session → List (Option RunResult × Sink)
  | [], _ => []
  | a :: rest, s => ((s.act a).1, (s.act a).2.machine.sink) :: trace rest (s.act a).2

/-- The sessions that come of actions: new ones, whatever their sink and their clock, and those that
an action leaves of such a session. -/
inductive Reachable : Session → Prop
  | start (sink : Sink) (clock : Clock) : Reachable (start sink clock)
  | act (a : Action) {s : Session} : Reachable s → Reachable (s.act a).2

/-! ## Runs of sources as they were read -/

/-- How a run ends, and the session after it, when its program ends so. -/
def ended (next : Nat) : Outcome Unit → RunResult × Session
  | .done () m => (.success, ⟨m, next⟩)
  | .failed failure m => (.stopped failure, ⟨m, next⟩)
  | .exhausted m => (.unfinished, ⟨m, next⟩)

theorem runReading_accepted (s : Session) (budget : Nat) {reading : Reading} {distances : Distances}
    (herrors : reading.errors = []) (hresolve : resolve reading.statements = .ok distances) :
    s.runReading budget reading =
      ended reading.nextId
        (Eval.program budget reading.statements (s.machine.learn distances)) := by
  simp only [runReading, herrors, hresolve, List.isEmpty_nil, if_true]
  cases Eval.program budget reading.statements (s.machine.learn distances) <;> rfl

theorem ended_snd (next : Nat) (ending : Outcome Unit) :
    (ended next ending).2 = ⟨ending.machine, next⟩ := by
  cases ending <;> rfl

/-- However a run ends, the numbers of its source are used up. -/
theorem nextId_runReading (s : Session) (budget : Nat) (reading : Reading) :
    (s.runReading budget reading).2.nextId = reading.nextId := by
  unfold Session.runReading
  split
  · split
    · rfl
    · split <;> rfl
  · rfl

/-- A source that is rejected is so for its text, whatever the session and the budget. -/
theorem rejects {reading : Reading}
    (h : ∀ distances, reading.errors = [] → resolve reading.statements ≠ .ok distances) :
    ∃ errors, ∀ (s : Session) (budget : Nat), s.runReading budget reading =
      (.rejected errors, ⟨s.machine, reading.nextId⟩) := by
  cases herrors : reading.errors with
  | nil =>
    cases hresolve : resolve reading.statements with
    | error errors =>
      exact ⟨errors.map Diagnostic.scoping, fun _ _ => by simp [runReading, herrors, hresolve]⟩
    | ok distances => exact absurd hresolve (h distances herrors)
  | cons error rest => exact ⟨error :: rest, fun _ _ => by simp [runReading, herrors]⟩

/-- A run that is rejected changes no machine. -/
theorem runReading_rejected (s : Session) (budget : Nat) {reading : Reading}
    (h : ∀ distances, reading.errors = [] → resolve reading.statements ≠ .ok distances) :
    (s.runReading budget reading).2 = ⟨s.machine, reading.nextId⟩ := by
  obtain ⟨errors, hrejected⟩ := rejects h
  rw [hrejected s budget]

end Session

end LoxLang
