import LoxLang.Number.Shortest

/-!
# Written numbers

A `NumberStyle` says how a double is laid out: which integral values are written exactly, where
positional notation ends, and the words for what is not finite. The digits of all other values are
the shortest that read back.
-/

namespace LoxLang

/-- The layout decisions of one written form of a number. -/
structure NumberStyle where
  /-- Which of two equally near digit strings is written. -/
  tie : Tie
  /-- The powers of ten of the leading digit for which a number is written positionally; outside
  them it is written with an exponent. -/
  positional : Int → Bool
  /-- The integral magnitudes that are written as their exact value, whatever digits read back. -/
  exact : Nat → Bool
  /-- What follows an integral magnitude that is written exactly. -/
  exactTail : List Char
  /-- What follows the shortest digits when they reach no fraction. -/
  paddedTail : List Char
  /-- Is the sign of a negative zero written? -/
  signedZero : Bool
  notANumber : String
  infinity : String
  negativeInfinity : String

namespace NumberStyle

/-- Digits and power of ten without an exponent, padded with zeros on either side of the point. -/
def positionally (style : NumberStyle) (x : Decimal) : List Char :=
  let digits := x.chars
  match x.exponent with
  | .ofNat zeros => digits ++ List.replicate zeros '0' ++ style.paddedTail
  | .negSucc e =>
    let places := e + 1
    if places < digits.length then
      digits.take (digits.length - places) ++ '.' :: digits.drop (digits.length - places)
    else
      '0' :: '.' :: List.replicate (places - digits.length) '0' ++ digits

/-- One digit before the point, and the power of ten with its sign: `d.ddde+X` or `d.ddde-X`. -/
def withExponent (x : Decimal) : List Char :=
  let point := match x.chars with
    | [] => []
    | [d] => [d]
    | d :: more => d :: '.' :: more
  let power := match x.leading with
    | .ofNat e => '+' :: Nat.toDigits 10 e
    | .negSucc e => '-' :: Nat.toDigits 10 (e + 1)
  point ++ 'e' :: power

/-- The text of a nonzero magnitude. -/
def magnitude (style : NumberStyle) (coefficient : Nat) (exponent : Int) : List Char :=
  let x := Decimal.shortest style.tie coefficient exponent
  if style.positional x.leading then
    match Binary64.whole? coefficient exponent with
    | some n =>
      if style.exact n then Nat.toDigits 10 n ++ style.exactTail else style.positionally x
    | none => style.positionally x
  else
    withExponent x

/-- The text of what a bit pattern denotes. -/
def write (style : NumberStyle) : Binary64 → String
  | .notANumber => style.notANumber
  | .infinite false => style.infinity
  | .infinite true => style.negativeInfinity
  | .finite negative coefficient exponent =>
    if coefficient = 0 then
      String.ofList ((if negative && style.signedZero then ['-'] else []) ++ '0' :: style.exactTail)
    else
      String.ofList ((if negative then ['-'] else []) ++ style.magnitude coefficient exponent)

/-- The text of a floating-point number. -/
def text (style : NumberStyle) (x : Float) : String :=
  style.write (Binary64.ofFloat x)

/-- Numbers as `print` writes them: magnitudes from `1e-6` up to `1e21` have no exponent, and
integral ones among them are exact. -/
def printed : NumberStyle where
  tie := .up
  positional power := -7 < power && power < 21
  exact _ := true
  exactTail := []
  paddedTail := []
  signedZero := true
  notANumber := "NaN"
  infinity := "Infinity"
  negativeInfinity := "-Infinity"

/-- Number literals in the text of a tree: integral ones are exact and keep one decimal. -/
def inTree : NumberStyle where
  tie := .up
  positional _ := true
  exact _ := true
  exactTail := ['.', '0']
  paddedTail := []
  signedZero := true
  notANumber := "NaN"
  infinity := "inf"
  negativeInfinity := "-inf"

/-- Number literals in a token listing: integral ones that fit 64 signed bits are exact and keep
one decimal, and an integer has no negative zero. -/
def inListing : NumberStyle where
  tie := .up
  positional _ := true
  exact n := n < Nat.pow 2 63
  exactTail := ['.', '0']
  paddedTail := []
  signedZero := false
  notANumber := "NaN"
  infinity := "inf"
  negativeInfinity := "-inf"

/-- Number literals in a listing for machines: always a decimal or an exponent, and `null` for what
that format has no number for. -/
def inJson : NumberStyle where
  tie := .even
  positional power := -6 < power && power < 16
  exact _ := false
  exactTail := ['.', '0']
  paddedTail := ['.', '0']
  signedZero := true
  notANumber := "null"
  infinity := "null"
  negativeInfinity := "null"

end NumberStyle

end LoxLang
