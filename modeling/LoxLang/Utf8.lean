/-!
# Text from bytes

Bytes are cut into characters and into ill-formed runs. An ill-formed run ends before the first
byte that no character can have at its place, so that reading can go on right there.

1. `Utf8.pieces` ends because every piece takes a byte.
-/

namespace LoxLang

namespace Utf8

/-- What some bytes begin with. -/
inductive Piece where
  | char (c : Char)
  /-- So many bytes that begin no character. -/
  | invalid (count : Nat)
  /-- The bytes end within a character. -/
  | incomplete
  deriving DecidableEq, Repr

/-- What a first byte announces: how many bytes follow, between which bounds the next one lies, and
the bits that the first byte itself contributes. -/
structure Lead where
  tails : Nat
  low : Nat
  high : Nat
  bits : Nat
  deriving DecidableEq, Repr

/-- The bounds of the second byte leave out overlong forms, surrogates, and all beyond the last
code point. -/
def lead? (first : Nat) : Option Lead :=
  if first < 0x80 then some ⟨0, 0x80, 0xBF, first⟩
  else if first < 0xC2 then none
  else if first < 0xE0 then some ⟨1, 0x80, 0xBF, first - 0xC0⟩
  else if first < 0xF0 then
    some ⟨2, if first = 0xE0 then 0xA0 else 0x80, if first = 0xED then 0x9F else 0xBF, first - 0xE0⟩
  else if first < 0xF5 then
    some ⟨3, if first = 0xF0 then 0x90 else 0x80, if first = 0xF4 then 0x8F else 0xBF, first - 0xF0⟩
  else none

/-- Reads the bytes that are to follow, `seen` of the character having been read. Answers with the
piece and how many of these bytes belong to it. -/
def follow : (tails low high bits seen : Nat) → List UInt8 → Piece × Nat
  | 0, _, _, bits, seen, _ => (.char (Char.ofNat bits), seen - 1)
  | _ + 1, _, _, _, seen, [] => (.incomplete, seen - 1)
  | tails + 1, low, high, bits, seen, next :: rest =>
    if low ≤ next.toNat ∧ next.toNat ≤ high then
      follow tails 0x80 0xBF (bits * 64 + next.toNat % 64) (seen + 1) rest
    else
      (.invalid seen, seen - 1)

/-- The piece that begins with this byte, and how many more bytes belong to it. -/
def piece (first : UInt8) (rest : List UInt8) : Piece × Nat :=
  match lead? first.toNat with
  | none => (.invalid 1, 0)
  | some lead => follow lead.tails lead.low lead.high lead.bits 1 rest

/-- All pieces, each with the number of its bytes. -/
def pieces : List UInt8 → List (Piece × Nat)
  | [] => []
  | first :: rest =>
    let (found, more) := piece first rest
    (found, more + 1) :: pieces (rest.drop more)
termination_by bytes => bytes.length
decreasing_by simp only [List.length_drop, List.length_cons]; omega

/-- Why bytes are no text: from which one on, and how many of them are ill-formed; no number says
that the bytes end too early. -/
structure Fault where
  index : Nat
  count? : Option Nat
  deriving DecidableEq, Repr

namespace Fault

/-- The wording of an encoding fault. -/
def message (fault : Fault) : String :=
  match fault.count? with
  | some count =>
    "invalid utf-8 sequence of " ++ toString count ++ " bytes from index " ++ toString fault.index
  | none => "incomplete utf-8 byte sequence from index " ++ toString fault.index

end Fault

/-- The characters of pieces that begin at an index, or the first fault. -/
def join (index : Nat) : List (Piece × Nat) → Except Fault (List Char)
  | [] => .ok []
  | (.char c, width) :: rest => (join (index + width) rest).map (c :: ·)
  | (.invalid count, _) :: _ => .error ⟨index, some count⟩
  | (.incomplete, _) :: _ => .error ⟨index, none⟩

/-- The text that bytes encode, if they do. -/
def decode (bytes : List UInt8) : Except Fault String :=
  (join 0 (pieces bytes)).map String.ofList

/-- The text that bytes encode, with a replacement character for every ill-formed run. -/
def decodeLossy (bytes : List UInt8) : String :=
  String.ofList ((pieces bytes).map fun
    | (.char c, _) => c
    | _ => '\uFFFD')

end Utf8

end LoxLang
