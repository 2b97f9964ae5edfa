import LoxLang.Machine.Fault
import LoxLang.Scoping.Fault
import LoxLang.Token.Stream
import LoxLang.Tree.Fault

/-!
# Diagnostics

Everything that can be reported about a program, whichever part of the work found it.
-/

namespace LoxLang

/-- One thing to report. -/
inductive Diagnostic where
  | lexical (error : LexError)
  | grammar (error : GrammarError)
  | scoping (error : ScopingError)
  | runtime (error : RuntimeError)
  | output (fault : SinkFault)
  deriving DecidableEq, Repr

namespace Diagnostic

/-- The wording of a diagnostic. -/
def text : Diagnostic → String
  | lexical error => error.text
  | grammar error => error.text
  | scoping error => error.text
  | runtime error => error.text
  | output fault => fault.message

/-- What there is to report when a run stopped. -/
def ofFailure : Failure → Diagnostic
  | .runtime error => runtime error
  | .output fault => output fault

end Diagnostic

end LoxLang
