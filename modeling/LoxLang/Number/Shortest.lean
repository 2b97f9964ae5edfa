import LoxLang.Number.Binary64

/-!
# The fewest digits that read back

A double stands for every real that rounds to it: an interval around its value, from half way to
the neighbour below to half way to the neighbour above, the two ends included exactly when the
coefficient is even. `Decimal.shortest` searches the decimal grids from coarse to fine and answers
with a grid point of that interval, on the first grid that has one.

Only natural numbers are compared, so no step rounds.
-/

namespace LoxLang

/-- The number `digits · 10 ^ exponent`. -/
structure Decimal where
  digits : Nat
  exponent : Int
  deriving DecidableEq, Repr

/-- Which of two equally near decimals is taken. -/
inductive Tie where
  | up
  | even
  deriving DecidableEq, Repr

namespace Decimal

/-- Compares `d · 10 ^ k` with `n · 2 ^ q`, both sides multiplied free of negative powers. -/
def compareDyadic (d : Nat) (k : Int) (n : Nat) (q : Int) : Ordering :=
  compare (d * Nat.pow 10 k.toNat * Nat.pow 2 (-q).toNat)
    (n * Nat.pow 2 q.toNat * Nat.pow 10 (-k).toNat)

/-- Below a power of two the neighbour is half as far away, save at the narrowest gap of all. -/
def narrowBelow (coefficient : Nat) (exponent : Int) : Bool :=
  coefficient == Binary64.leadingBit && Binary64.leastExponent < exponent

/-- Does `d · 10 ^ k` round to `coefficient · 2 ^ exponent`? Ends are taken in quarters of a
unit. -/
def readsBack (coefficient : Nat) (exponent : Int) (d : Nat) (k : Int) : Bool :=
  let low := 4 * coefficient - (if narrowBelow coefficient exponent then 1 else 2)
  let high := 4 * coefficient + 2
  let ends := coefficient % 2 == 0
  match compareDyadic d k low (exponent - 2), compareDyadic d k high (exponent - 2) with
  | .gt, .lt => true
  | .eq, _ => ends
  | _, .eq => ends
  | _, _ => false

/-- The whole part of `coefficient · 2 ^ exponent / 10 ^ k`. -/
def floorAt (coefficient : Nat) (exponent k : Int) : Nat :=
  (coefficient * Nat.pow 2 exponent.toNat * Nat.pow 10 (-k).toNat) /
    (Nat.pow 2 (-exponent).toNat * Nat.pow 10 k.toNat)

/-- The least `k` with `coefficient · 2 ^ exponent < 10 ^ k`, from a guess by the binary logarithm
that is at most two too low. -/
def scale (coefficient : Nat) (exponent : Int) : Int :=
  let guess := ((coefficient.log2 : Int) + exponent) * 30103 / 100000
  if compareDyadic 1 guess coefficient exponent = .gt then guess
  else if compareDyadic 1 (guess + 1) coefficient exponent = .gt then guess + 1
  else guess + 2

/-- Of `d` and `d + 1`, the nearer to the value in units of `10 ^ k`. -/
def nearer (tie : Tie) (coefficient : Nat) (exponent : Int) (d : Nat) (k : Int) : Nat :=
  match compareDyadic (2 * d + 1) k (2 * coefficient) exponent with
  | .lt => d + 1
  | .gt => d
  | .eq =>
    match tie with
    | .up => d + 1
    | .even => if d % 2 = 0 then d else d + 1

/-- The grid point of spacing `10 ^ k` that stands for the value, if one reads back. -/
def onGrid? (tie : Tie) (coefficient : Nat) (exponent k : Int) : Option Nat :=
  let d := floorAt coefficient exponent k
  match readsBack coefficient exponent d k, readsBack coefficient exponent (d + 1) k with
  | true, true => some (nearer tie coefficient exponent d k)
  | true, false => some d
  | false, true => some (d + 1)
  | false, false => none

/-- Tries the grids of `count`, `count + 1`, … digits, `left` of them in all. -/
def search (tie : Tie) (coefficient : Nat) (exponent top : Int) : (left count : Nat) → Decimal
  | 0, _ => ⟨coefficient * Nat.pow 2 exponent.toNat * Nat.pow 5 (-exponent).toNat, min exponent 0⟩
  | left + 1, count =>
    match onGrid? tie coefficient exponent (top - count) with
    | some d => ⟨d, top - count⟩
    | none => search tie coefficient exponent top left (count + 1)

/-- Moves trailing zeros into the exponent; `steps` bounds how many there can be. -/
def strip : (steps : Nat) → Decimal → Decimal
  | 0, x => x
  | steps + 1, x =>
    if x.digits ≠ 0 ∧ x.digits % 10 = 0 then strip steps ⟨x.digits / 10, x.exponent + 1⟩ else x

/-- The shortest decimal that reads back as `coefficient · 2 ^ exponent`, the nearest one of that
length; seventeen digits always suffice. -/
def shortest (tie : Tie) (coefficient : Nat) (exponent : Int) : Decimal :=
  strip 18 (search tie coefficient exponent (scale coefficient exponent) 17 1)

/-- The decimal digits, most significant first. -/
def chars (x : Decimal) : List Char :=
  Nat.toDigits 10 x.digits

/-- The power of ten of the leading digit. -/
def leading (x : Decimal) : Int :=
  x.exponent + x.chars.length - 1

end Decimal

end LoxLang
