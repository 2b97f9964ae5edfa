import LoxLang.Token

/-!
# Scoping faults

The rules of scoping that a well-formed tree can still break, and the words for them.
-/

namespace LoxLang

/-- Which rule of scoping is broken. -/
inductive ScopingFault where
  /-- A local name is declared twice in one scope. -/
  | alreadyDeclared
  /-- A local variable is read while its own initial value is computed. -/
  | inOwnInitializer
  | returnOutsideFunction
  | valueFromInitializer
  | thisOutsideClass
  | superOutsideClass
  | superWithoutSuperclass
  | inheritsFromItself
  deriving DecidableEq, Repr

namespace ScopingFault

/-- The wording of a scoping fault. -/
def message : ScopingFault → String
  | alreadyDeclared => "Already a variable with this name in this scope."
  | inOwnInitializer => "Can't read local variable in its own initializer."
  | returnOutsideFunction => "Can't return from top-level code."
  | valueFromInitializer => "Can't return a value from an initializer."
  | thisOutsideClass => "Can't use 'this' outside of a class."
  | superOutsideClass => "Can't use 'super' outside of a class."
  | superWithoutSuperclass => "Can't use 'super' in a class with no superclass."
  | inheritsFromItself => "A class can't inherit from itself."

end ScopingFault

/-- A scoping fault and its place. -/
structure ScopingError where
  site : Site
  fault : ScopingFault
  deriving DecidableEq, Repr

namespace ScopingError

/-- The wording of a scoping error. -/
def text (e : ScopingError) : String :=
  e.site.report e.fault.message

end ScopingError

end LoxLang
