/-!
# The value of a double

A double is read from its 64 bits as a sign, a coefficient and a power of two, so that everything
said about its text is said about natural numbers.

1. `Binary64.read`: what a bit pattern denotes.
2. `Binary64.whole?`: the magnitude of an integral value, exactly.
-/

namespace LoxLang

/-- What 64 bits denote: no number, an infinity, or `± coefficient · 2 ^ exponent`. -/
inductive Binary64 where
  | notANumber
  | infinite (negative : Bool)
  | finite (negative : Bool) (coefficient : Nat) (exponent : Int)
  deriving DecidableEq, Repr

namespace Binary64

/-- The coefficient of every normal double is at least this, and below twice this. -/
def leadingBit : Nat := Nat.pow 2 52

/-- The exponent of the smallest doubles; no gap between neighbours is narrower. -/
def leastExponent : Int := -1074

/-- Reads the three fields of a bit pattern: a sign, eleven bits of exponent, 52 of fraction. -/
def read (bits : UInt64) : Binary64 :=
  let negative := bits.toNat / Nat.pow 2 63 == 1
  let field : Nat := bits.toNat / leadingBit % Nat.pow 2 11
  let fraction : Nat := bits.toNat % leadingBit
  if field = 2047 then
    if fraction = 0 then infinite negative else notANumber
  else if field = 0 then
    finite negative fraction leastExponent
  else
    finite negative (leadingBit + fraction) ((field : Int) + leastExponent - 1)

/-- The value of a floating-point number. -/
def ofFloat (x : Float) : Binary64 :=
  read x.toBits

/-- The natural number `coefficient · 2 ^ exponent`, if it is one. -/
def whole? (coefficient : Nat) (exponent : Int) : Option Nat :=
  match exponent with
  | .ofNat e => some (coefficient * Nat.pow 2 e)
  | .negSucc e =>
    let divisor := Nat.pow 2 (e + 1)
    if coefficient % divisor = 0 then some (coefficient / divisor) else none

/-- What `whole?` finds is the value itself, and not a rounding of it. -/
theorem whole?_negSucc {coefficient e n : Nat} (found : whole? coefficient (.negSucc e) = some n) :
    n * Nat.pow 2 (e + 1) = coefficient := by
  simp only [whole?] at found
  split at found
  · next divides =>
    obtain rfl := Option.some.inj found
    exact Nat.div_mul_cancel (Nat.dvd_of_mod_eq_zero divides)
  · exact nomatch found

end Binary64

end LoxLang
