import LoxLang.Text.Visibility

/-!
# Text between quotes

Quoted text can be read off a screen: what cannot be seen wherever it stands is written by its code
point, and what would end the text or begin an escape is escaped itself.

1. `Quoted.escape_visible`: all other characters stand for themselves.
-/

namespace LoxLang

namespace Quoted

/-- A character by its code point in hexadecimal digits. -/
def byPoint (c : Char) : List Char :=
  ['\\', 'u', '\x7b'] ++ Nat.toDigits 16 c.toNat ++ ['\x7d']

/-- A character of quoted text. -/
def escape (c : Char) : List Char :=
  if c = '\x22' then ['\\', '\x22']
  else if c = '\\' then ['\\', '\\']
  else if c = '\t' then ['\\', 't']
  else if c = '\n' then ['\\', 'n']
  else if c = '\r' then ['\\', 'r']
  else if c = '\x00' then ['\\', '0']
  else if Visibility.standsAlone c then [c]
  else byPoint c

/-- A text between quotes. -/
def ofString (text : String) : String :=
  String.ofList ('\x22' :: text.toList.flatMap escape ++ ['\x22'])

theorem escape_visible (c : Char) (low : 32 ≤ c.toNat) (high : c.toNat < 127)
    (quote : c ≠ '\x22') (backslash : c ≠ '\\') : escape c = [c] := by
  have control (d : Char) (below : d.toNat < 32) : c ≠ d := by
    rintro rfl
    omega
  simp [escape, quote, backslash, control '\t' (by decide), control '\n' (by decide),
    control '\r' (by decide), control '\x00' (by decide), Visibility.standsAlone_ascii c low high]

end Quoted

end LoxLang
