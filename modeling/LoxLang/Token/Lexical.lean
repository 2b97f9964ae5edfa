import LoxLang.Token

/-!
# Characters and texts of tokens

What the characters of a source can begin, and what texts of tokens stand for.
-/

namespace LoxLang

/-- Why text is no token. -/
inductive LexFault where
  /-- A character that begins nothing. -/
  | unexpected (c : Char)
  /-- A quote with no later quote. -/
  | unterminated
  deriving DecidableEq, Repr

namespace LexFault

/-- The wording of a lexical fault. -/
def message : LexFault → String
  | unexpected c => "Unexpected character: " ++ String.singleton c
  | unterminated => "Unterminated string."

end LexFault

namespace Lexical

/-- The character around a string literal. -/
def quote : Char := '\x22'

/-- The ten ASCII digits; no other digits are read. -/
def isDigit (c : Char) : Bool :=
  '0' ≤ c && c ≤ '9'

/-- The ASCII letters and the underscore, which begin names and reserved words. -/
def isLetter (c : Char) : Bool :=
  ('a' ≤ c && c ≤ 'z') || ('A' ≤ c && c ≤ 'Z') || c == '_'

/-- What may follow in a name. -/
def isWordChar (c : Char) : Bool :=
  isLetter c || isDigit c

/-- The natural number that a run of digits denotes. -/
def decimalValue (digits : List Char) : Nat :=
  digits.foldl (fun n d => 10 * n + (d.toNat - '0'.toNat)) 0

/-- The double nearest to a decimal number. -/
def numberValue (whole fraction : List Char) : Float :=
  Float.ofScientific (decimalValue (whole ++ fraction)) true fraction.length

/-- What the text of a number stands for: digits, and perhaps a point and more digits. -/
def numberOf (text : List Char) : Float :=
  numberValue (text.takeWhile (· ≠ '.')) (text.dropWhile (· ≠ '.')).tail

/-- The kind of a whole word: reserved, or else a name. -/
def wordKind (text : List Char) : Kind :=
  match Keyword.ofText? (String.ofList text) with
  | some k => .keyword k
  | none => .identifier

end Lexical

end LoxLang
