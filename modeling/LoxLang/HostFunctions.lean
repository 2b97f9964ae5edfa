import LoxLang.Machine.Native

/-!
# Functions for trying out

A few functions that a host can offer, for trying out how programs call their host.
-/

namespace LoxLang

/-- A function for trying out how programs call their host. -/
inductive HostFunction where
  | double
  | concat
  | type
  | last
  | fail
  deriving DecidableEq, Repr

namespace HostFunction

variable {σ : Type}

/-- The name of a host function. -/
def name : HostFunction → String
  | double => "double"
  | concat => "concat"
  | type => "type"
  | last => "last"
  | fail => "fail"

/-- The host function of that name. -/
def ofName? (s : String) : Option HostFunction :=
  [double, concat, type, last, fail].find? fun f => f.name == s

/-- What each host function does with its arguments. -/
def run : HostFunction → List (Value σ) → Except String (Value σ)
  | double, [.number value] => .ok (.number (value * 2))
  | double, _ => .error "double expects a number."
  | concat, arguments => .ok (.string (String.join (arguments.map Value.text)))
  | type, arguments => .ok (.string ((arguments.head?.map Value.typeName).getD "none"))
  | last, arguments => .ok (arguments.getLast?.getD .nil)
  | fail, arguments => .error ((arguments.head?.map Value.text).getD "fail")

/-- A host function that takes so many arguments. -/
def native (f : HostFunction) (arity : Nat) : Native σ :=
  ⟨arity, .host f.run⟩

end HostFunction

end LoxLang
