import LoxLang.Machine.Fault
import LoxLang.Machine.Native
import LoxLang.Machine.Sink
import LoxLang.Scoping.Resolution

/-!
# The machine

All that a running program reads and changes, and the steps its evaluation is made of. A step ends
with a value, with a failure, or because its budget is used up; in every case the machine tells
what has happened so far.
-/

namespace LoxLang

/-- The state of a running program. -/
structure Machine where
  /-- The frames of all scopes. -/
  store : Store Value
  /-- The fields of all objects. -/
  objects : Array (Bindings Value)
  /-- The identity that the next function or class gets. -/
  nextId : Nat
  natives : Array Native
  /-- The readings of the clock that are still to come. -/
  clock : Clock
  /-- The scope in which names are now bound. -/
  scope : Scope
  /-- How many calls are in progress. -/
  depth : Nat
  /-- Where the mentions of local variables find them; all other mentions mean globals. -/
  distances : Distances
  sink : Sink

namespace Machine

/-- The scope that every other scope of a session lies in. -/
def globals : Scope :=
  ⟨0, []⟩

/-- How many calls may be in progress at a time. -/
def maxDepth : Nat := 64

/-- A machine before its first program: the only global is `clock`. -/
def start (sink : Sink) (clock : Clock) : Machine where
  store := (Store.empty.newRoot [("clock", .native 0)]).2
  objects := #[]
  nextId := 0
  natives := #[⟨0, .clock⟩]
  clock := clock
  scope := globals
  depth := 0
  distances := ∅
  sink := sink

/-- Offers a host function as a global. -/
def defineNative (m : Machine) (name : String) (native : Native) : Machine :=
  { m with
    natives := m.natives.push native
    store := m.store.define globals name (.native m.natives.size) }

/-- Adds what is known about more mentions. -/
def learn (m : Machine) (distances : Distances) : Machine :=
  { m with distances := m.distances ∪ distances }

end Machine

/-- How a step on a machine `μ` ends. -/
inductive Ending (μ α : Type) where
  | done (value : α) (machine : μ)
  | failed (failure : Failure) (machine : μ)
  | exhausted (machine : μ)

namespace Ending

variable {μ α : Type}

/-- The machine at the end. -/
def machine : Ending μ α → μ
  | done _ m => m
  | failed _ m => m
  | exhausted m => m

/-- The same end with the machine changed. -/
@[inline] def mapMachine (change : μ → μ) : Ending μ α → Ending μ α
  | done value m => done value (change m)
  | failed failure m => failed failure (change m)
  | exhausted m => exhausted (change m)

end Ending

/-- A step on a machine `μ`. -/
def Step (μ α : Type) : Type :=
  μ → Ending μ α

namespace Step

variable {μ α β : Type}

/-- The step that changes nothing. -/
@[inline] def pure (value : α) : Step μ α :=
  fun m => .done value m

/-- One step after another; a failure passes over the second. -/
@[inline] def bind (first : Step μ α) (next : α → Step μ β) : Step μ β :=
  fun m =>
    match first m with
    | .done value m => next value m
    | .failed failure m => .failed failure m
    | .exhausted m => .exhausted m

instance : Monad (Step μ) where
  pure := pure
  bind := bind

/-- The step of a used-up budget. -/
def exhausted : Step μ α :=
  fun m => .exhausted m

/-- Stops the program at a line. -/
def fail (line : Nat) (fault : RuntimeFault) : Step μ α :=
  fun m => .failed (.runtime ⟨line, fault⟩) m

/-- A value, unless there is a fault at a line. -/
def lift (line : Nat) : Except RuntimeFault α → Step μ α
  | .ok value => pure value
  | .error fault => fail line fault

/-- What is there, unless it is missing. -/
def require (line : Nat) (fault : RuntimeFault) : Option α → Step μ α
  | some value => pure value
  | none => fail line fault

/-- Looks at the machine. -/
@[inline] def look (view : μ → α) : Step μ α :=
  fun m => .done (view m) m

/-- Changes the machine. -/
@[inline] def change (change : μ → μ) : Step μ Unit :=
  fun m => .done () (change m)

end Step

/-- How a step of evaluation ends. -/
abbrev Outcome : Type → Type :=
  Ending Machine

/-- A step of evaluation. -/
abbrev Eval : Type → Type :=
  Step Machine

namespace Eval

open Step

variable {α : Type}

/-- A step in another scope; however it ends, the scope is put back. -/
@[inline] def within (scope : Scope) (step : Eval α) : Eval α :=
  fun m =>
    let outer := m.scope
    (step { m with scope := scope }).mapMachine fun m => { m with scope := outer }

/-- A step with one more call in progress; however it ends, the call is over. -/
@[inline] def counted (step : Eval α) : Eval α :=
  fun m =>
    (step { m with depth := m.depth + 1 }).mapMachine fun m => { m with depth := m.depth - 1 }

/-- An identity that nothing had before. -/
def freshId : Eval Nat :=
  fun m => .done m.nextId { m with nextId := m.nextId + 1 }

/-- Binds a name in the present scope. -/
def define (name : String) (value : Value) : Eval Unit :=
  change fun m => { m with store := m.store.define m.scope name value }

/-- Binds a name in one frame. -/
def put (address : Nat) (name : String) (value : Value) : Eval Unit :=
  change fun m => { m with store := m.store.put address name value }

/-- A new scope inside another, with its first bindings. -/
def openScope (around : Scope) (contents : Bindings Value) : Eval Scope :=
  fun m =>
    let (scope, store) := m.store.newInside around contents
    .done scope { m with store := store }

/-- A new object without fields. -/
def newObject (c : Class) : Eval Value :=
  fun m => .done (.object m.objects.size c) { m with objects := m.objects.push [] }

/-- The field of an object, if it has one of that name. -/
def field? (address : Nat) (name : String) : Eval (Option Value) :=
  look fun m => Bindings.get? (m.objects[address]?.getD []) name

/-- Sets a field of an object. -/
def setField (address : Nat) (name : String) (value : Value) : Eval Unit :=
  change fun m => { m with objects := m.objects.modify address (Bindings.put name value) }

/-- Writes text and a line end to the sink. -/
def printLine (text : String) : Eval Unit :=
  fun m =>
    match m.sink.write (text ++ "\n").toUTF8.data with
    | (none, sink) => .done () { m with sink := sink }
    | (some fault, sink) => .failed (.output fault) { m with sink := sink }

/-- Flushes the sink. -/
def flush : Eval Unit :=
  fun m =>
    match m.sink.flush with
    | none => .done () m
    | some fault => .failed (.output fault) m

/-- Reads the clock, in seconds. -/
def tell : Eval Value :=
  fun m => .done (.number (Float.ofInt m.clock.now / 1000000)) { m with clock := m.clock.later }

end Eval

end LoxLang
