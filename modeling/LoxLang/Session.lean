import LoxLang.Diagnostic
import LoxLang.Machine.Evaluation
import LoxLang.Tree.Parsed

/-!
# Sessions

A session runs one source after another on one machine, so that the globals of each are there for
the next. A source with any lexical, grammatical or scoping error is not run at all. Mentions are
numbered on through the session: what is known about the functions of earlier sources stays true.
-/

namespace LoxLang

/-- A source as it was read: its statements, and what is wrong with its text. -/
structure Reading where
  statements : List Stmt
  errors : List Diagnostic
  nextId : Nat

namespace Reading

/-- Reads tokens, of which `before` has already been reported. -/
def ofTokens (before : List Diagnostic) (tokens : List Token) (firstId : Nat) : Reading :=
  let parsed := Parsed.ofTokens tokens firstId
  ⟨parsed.statements, before ++ parsed.errors.map Diagnostic.grammar, parsed.nextId⟩

/-- Reads a source; all lexical errors come before all grammatical ones. -/
def ofSource (source : String) (firstId : Nat) : Reading :=
  let (tokens, errors) := scan source
  ofTokens (errors.map Diagnostic.lexical) tokens firstId

end Reading

/-- How the run of a source ends. -/
inductive RunResult where
  | success
  /-- The source has errors and was not run. -/
  | rejected (errors : List Diagnostic)
  /-- The run stopped before its end. -/
  | stopped (failure : Failure)
  /-- The budget was used up. -/
  | unfinished
  deriving DecidableEq

namespace RunResult

/-- What there is to report about a run, in order. -/
def diagnostics : RunResult → List Diagnostic
  | success => []
  | rejected errors => errors
  | stopped failure => [.ofFailure failure]
  | unfinished => []

end RunResult

/-- A machine, and the number of the next mention. -/
structure Session where
  machine : Machine
  nextId : Nat

namespace Session

/-- A budget that no run in practice uses up. -/
def ample : Nat := Nat.pow 10 18

/-- A session before its first source. -/
def start (sink : Sink) (clock : Clock) : Session :=
  ⟨Machine.start sink clock, 0⟩

/-- Runs a source as it was read. Numbers are used up even if it is rejected. -/
def runReading (budget : Nat) (reading : Reading) (s : Session) : RunResult × Session :=
  if reading.errors.isEmpty then
    match resolve reading.statements with
    | .error errors =>
      (.rejected (errors.map Diagnostic.scoping), ⟨s.machine, reading.nextId⟩)
    | .ok distances =>
      match Eval.program budget reading.statements (s.machine.learn distances) with
      | .done () m => (.success, ⟨m, reading.nextId⟩)
      | .failed failure m => (.stopped failure, ⟨m, reading.nextId⟩)
      | .exhausted m => (.unfinished, ⟨m, reading.nextId⟩)
  else
    (.rejected reading.errors, ⟨s.machine, reading.nextId⟩)

/-- Runs one source. -/
def run (budget : Nat) (source : String) (s : Session) : RunResult × Session :=
  s.runReading budget (Reading.ofSource source s.nextId)

/-- Offers a host function as a global. -/
def defineNative (name : String) (native : Native) (s : Session) : Session :=
  { s with machine := s.machine.defineNative name native }

/-- Takes away what has been written. -/
def drain (s : Session) : Array UInt8 × Session :=
  let (written, sink) := s.machine.sink.drain
  (written, { s with machine := { s.machine with sink := sink } })

/-- The expression that a source without its last semicolon consists of, or its errors. Its
mentions are numbered past all others, so that nothing is known about them: every name in it means
a global. -/
def expression (source : String) (s : Session) : Except (List Diagnostic) Expr :=
  let reading := Reading.ofSource (source ++ ";") s.nextId
  match reading.errors, reading.statements with
  | [], [.expression value] => .ok value
  | errors, _ => .error errors

/-- Evaluates an expression on the machine of a session. -/
def evaluate (budget : Nat) (e : Expr) (s : Session) : Outcome Value :=
  Eval.expr budget e s.machine

end Session

end LoxLang
