import LoxLang.Machine.Fault
import LoxLang.Value

/-!
# Operators

What the operators do to values. A kind of token that is no operator is a fault, found only after
the operands have been looked at.
-/

namespace LoxLang

namespace Operator

variable {σ : Type}

/-- An operator before its operand. -/
def unary (operator : Kind) (operand : Value σ) : Except RuntimeFault (Value σ) :=
  match operator with
  | .mark .minus =>
    match operand with
    | .number value => .ok (.number (-value))
    | _ => .error .operandNotNumber
  | .mark .bang => .ok (.boolean !operand.truthy)
  | _ => .error .invalidUnary

/-- A sum of numbers, or a joined string. -/
def add : Value σ → Value σ → Except RuntimeFault (Value σ)
  | .number a, .number b => .ok (.number (a + b))
  | .string a, .string b => .ok (.string (a ++ b))
  | _, _ => .error .operandsNotAddable

/-- An operator that takes numbers only. -/
def numeric (operator : Kind) (a b : Float) : Except RuntimeFault (Value σ) :=
  match operator with
  | .mark .minus => .ok (.number (a - b))
  | .mark .star => .ok (.number (a * b))
  | .mark .slash => .ok (.number (a / b))
  | .mark .greater => .ok (.boolean (b < a))
  | .mark .greaterEqual => .ok (.boolean (b ≤ a))
  | .mark .less => .ok (.boolean (a < b))
  | .mark .lessEqual => .ok (.boolean (a ≤ b))
  | _ => .error .invalidBinary

/-- An operator between two operands. -/
def binary (operator : Kind) (left right : Value σ) : Except RuntimeFault (Value σ) :=
  match operator with
  | .mark .equalEqual => .ok (.boolean (left.equals right))
  | .mark .bangEqual => .ok (.boolean !left.equals right)
  | .mark .plus => add left right
  | _ =>
    match left, right with
    | .number a, .number b => numeric operator a b
    | _, _ => .error .operandsNotNumbers

/-- Does the left side decide the whole? Every operator but `or` does so as `and` does. -/
def decides (operator : Kind) (left : Value σ) : Bool :=
  if operator = .keyword .orWord then left.truthy else !left.truthy

end Operator

end LoxLang
