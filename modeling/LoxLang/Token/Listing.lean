import LoxLang.Number.Style
import LoxLang.Token

/-!
# Token listings

Tokens are listed one a line for readers, and as an indented JSON array for machines.
-/

namespace LoxLang

namespace Token

/-- What a token stands for, as a listing shows it. -/
def literal (t : Token) : String :=
  match t.kind with
  | .string contents => contents
  | .number value => NumberStyle.inListing.text value
  | _ => "null"

/-- Kind, text and literal of a token, as a line of a listing. -/
def listed (t : Token) : String :=
  t.kind.name ++ " " ++ t.lexeme ++ " " ++ t.literal

end Token

/-! ## JSON text -/

namespace JsonText

/-- The lower-case hexadecimal digit of a number below sixteen. -/
def hexDigit (n : Nat) : Char :=
  Nat.digitChar (n % 16)

/-- Quotes, backslashes and control characters are escaped; all else stands for itself. -/
def escape (c : Char) : List Char :=
  if c = '\x22' then ['\\', '\x22']
  else if c = '\\' then ['\\', '\\']
  else if c = '\x08' then ['\\', 'b']
  else if c = '\t' then ['\\', 't']
  else if c = '\n' then ['\\', 'n']
  else if c = '\x0c' then ['\\', 'f']
  else if c = '\r' then ['\\', 'r']
  else if c.toNat < 32 then ['\\', 'u', '0', '0', hexDigit (c.toNat / 16), hexDigit c.toNat]
  else [c]

/-- A string literal. -/
def quoted (s : String) : String :=
  String.ofList ('\x22' :: s.toList.flatMap escape ++ ['\x22'])

/-- A member of an object that stands at the given depth of indentation. -/
def field (depth : Nat) (name value : String) : String :=
  String.ofList (List.replicate (2 * depth + 2) ' ') ++ quoted name ++ ": " ++ value

/-- Members or elements between brackets, one a line, at the given depth of indentation. -/
def enclosed (depth : Nat) (left right : String) (lines : List String) : String :=
  left ++ "\n" ++ ",\n".intercalate lines ++ "\n" ++
    String.ofList (List.replicate (2 * depth) ' ') ++ right

/-- An object that stands at the given depth of indentation. -/
def object (depth : Nat) (fields : List (String × String)) : String :=
  enclosed depth "\x7b" "\x7d" (fields.map fun (name, value) => field depth name value)

end JsonText

namespace Token

/-- The kind of a token; a literal is an object of one member. -/
def jsonKind (t : Token) : String :=
  match t.kind with
  | .string contents => JsonText.object 2 [(t.kind.name, JsonText.quoted contents)]
  | .number value => JsonText.object 2 [(t.kind.name, NumberStyle.inJson.text value)]
  | kind => JsonText.quoted kind.name

/-- One token of the array. -/
def json (t : Token) : String :=
  JsonText.object 1
    [("token_type", t.jsonKind), ("lexeme", JsonText.quoted t.lexeme), ("line", toString t.line)]

/-- A listing for machines; every listing has at least the end token. -/
def jsonListing (tokens : List Token) : String :=
  JsonText.enclosed 0 "[" "]" (tokens.map fun t => "  " ++ t.json)

end Token

end LoxLang
