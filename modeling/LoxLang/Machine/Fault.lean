/-!
# Run-time faults

Why a running program stops before its end, and the words for it.
-/

namespace LoxLang

/-- What went wrong in a running program. Causes that a user need not tell apart share their words:
that a name is not to be found is one thing to the user, but only the first of its causes is the
user's doing. -/
inductive RuntimeFault where
  /-- No scope that was searched has the name. -/
  | undefinedVariable (name : String)
  /-- The scope that a mention was traced to does not have the name, or does not exist. -/
  | unboundLocal (name : String)
  /-- The scope traced for `super`, or the one inside it, does not bind the keyword. -/
  | unboundKeyword (name : String)
  /-- The scope of a class declaration has lost the name of the class. -/
  | unboundClass (name : String)
  | undefinedProperty (name : String)
  | operandNotNumber
  | operandsNotNumbers
  | operandsNotAddable
  | invalidUnary
  | invalidBinary
  | notCallable
  | wrongArity (expected got : Nat)
  | stackOverflow
  | noProperties
  | noFields
  | superclassNotClass
  | superOutsideClass
  | invalidSuper
  /-- A function of the host refused its arguments. -/
  | host (message : String)
  deriving DecidableEq, Repr

namespace RuntimeFault

/-- The wording of a run-time fault. -/
def message : RuntimeFault → String
  | undefinedVariable name | unboundLocal name | unboundKeyword name | unboundClass name =>
    "Undefined variable '" ++ name ++ "'."
  | undefinedProperty name => "Undefined property '" ++ name ++ "'."
  | operandNotNumber => "Operand must be a number."
  | operandsNotNumbers => "Operands must be numbers."
  | operandsNotAddable => "Operands must be two numbers or two strings."
  | invalidUnary => "Invalid unary operator."
  | invalidBinary => "Invalid binary operator."
  | notCallable => "Can only call functions and classes."
  | wrongArity expected got =>
    "Expected " ++ toString expected ++ " arguments but got " ++ toString got ++ "."
  | stackOverflow => "Stack overflow."
  | noProperties => "Only instances have properties."
  | noFields => "Only instances have fields."
  | superclassNotClass => "Superclass must be a class."
  | superOutsideClass => "Can't use 'super' outside of a class."
  | invalidSuper => "Invalid 'super' binding."
  | host message => message

/-- Is the fault that a name was not found, for whatever cause? -/
def isMissingName : RuntimeFault → Bool
  | undefinedVariable _ | unboundLocal _ | unboundKeyword _ | unboundClass _ => true
  | _ => false

end RuntimeFault

/-- A run-time fault and the line of the token it arose at. -/
structure RuntimeError where
  line : Nat
  fault : RuntimeFault
  deriving DecidableEq, Repr

namespace RuntimeError

/-- The wording of a run-time error. -/
def text (e : RuntimeError) : String :=
  e.fault.message ++ "\n[line " ++ toString e.line ++ "]"

end RuntimeError

/-- Why output could not be written. -/
inductive SinkFault where
  | full
  | notFlushed
  deriving DecidableEq, Repr

namespace SinkFault

/-- The wording of an output fault. -/
def message : SinkFault → String
  | full => "sink full"
  | notFlushed => "flush failed"

end SinkFault

/-- Why a run stopped. -/
inductive Failure where
  | runtime (error : RuntimeError)
  | output (fault : SinkFault)
  deriving DecidableEq, Repr

end LoxLang
