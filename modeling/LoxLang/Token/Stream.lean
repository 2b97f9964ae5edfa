import LoxLang.Token.Lexical

/-!
# The token stream

A source is read byte by byte. It yields one token or one lexical error after another, then a
single end token, then nothing. A place in a source is the number of bytes before it.

1. `Stream.scanToken`: one step, which takes the bytes of one lexeme, blank or comment.
2. `Stream.onward_scanToken`: it takes at least a byte, so that asking for an item ends.
3. `scan`: the tokens and the errors of a whole source.
-/

namespace LoxLang

open Lexical

/-- Text that is no token, and the line on which it ends. -/
structure LexError where
  line : Nat
  fault : LexFault
  deriving DecidableEq, Repr

namespace LexError

/-- The wording of a lexical error. -/
def text (e : LexError) : String :=
  "[line " ++ toString e.line ++ "] Error: " ++ e.fault.message

end LexError

/-- One item of the stream. -/
inductive Item where
  | token (token : Token)
  | error (error : LexError)
  deriving DecidableEq

namespace Item

/-- The token that ends a source whose last line is `line`. -/
def last (line : Nat) : Item :=
  token ⟨.eof, "", line⟩

/-- The tokens among items. -/
def tokens (items : List Item) : List Token :=
  items.filterMap fun
    | token t => some t
    | error _ => none

/-- The errors among items. -/
def errors (items : List Item) : List LexError :=
  items.filterMap fun
    | token _ => none
    | error e => some e

end Item

/-- A source on its way to being read. -/
structure Stream where
  source : String
  /-- Where the lexeme begins that is being read. -/
  start : Nat
  /-- The place of the next byte. -/
  pos : Nat
  /-- The line reached. -/
  line : Nat
  /-- Has the end token been given? -/
  ended : Bool

namespace Stream

/-- The stream of a source, before its first item. -/
def ofSource (source : String) : Stream :=
  ⟨source, 0, 0, 1, false⟩

/-- The place behind the last byte. -/
def size (s : Stream) : Nat :=
  s.source.utf8ByteSize

/-- Have all bytes been read? -/
def atEnd (s : Stream) : Bool :=
  s.size ≤ s.pos

/-- The byte at a place, as the character of that number. Past the end it is zero, which a source
may hold as well. -/
def byte (s : Stream) (place : Nat) : Char :=
  if h : (⟨place⟩ : String.Pos.Raw) < s.source.rawEndPos then
    Char.ofUInt8 (s.source.getUTF8Byte ⟨place⟩ h)
  else '\x00'

/-- The byte so many places ahead. -/
def ahead (s : Stream) (offset : Nat) : Char :=
  s.byte (s.pos + offset)

/-- Begins a lexeme at the next byte. -/
def anew (s : Stream) : Stream :=
  { s with start := s.pos }

/-- Goes over one byte. -/
def skip (s : Stream) : Stream :=
  { s with pos := s.pos + 1 }

/-- Is this the next byte? At the end there is none. -/
def sees (s : Stream) (c : Char) : Bool :=
  !s.atEnd && s.ahead 0 == c

/-- The first place of a byte, from some place on. -/
def find? (s : Stream) (c : Char) (place : Nat) : Option Nat :=
  if place < s.size then
    if s.byte place = c then some place else find? s c (place + 1)
  else none
termination_by s.size - place

/-- The text of a source from one place up to another. It fails where that would cut a character in
two. -/
def slice? (source : String) (first last : Nat) : Option String := do
  let first ← source.pos? ⟨first⟩
  let last ← source.pos? ⟨last⟩
  if first ≤ last then some (source.extract first last) else none

/-- The text of the lexeme, as far as it has been read. -/
def lexeme? (s : Stream) : Option String :=
  slice? s.source s.start s.pos

/-- How many of some bytes are line feeds. -/
def lineFeeds (bytes : ByteArray) : Nat :=
  bytes.data.count '\n'.toUInt8

theorem ahead_at_end {s : Stream} (h : s.size ≤ s.pos) : s.ahead 0 = '\x00' :=
  dif_neg (Nat.not_lt.2 h)

/-- Goes over bytes as long as they are of some kind. The zero past the end is of no such kind,
which ends it there. -/
def skipWhile (kind : Char → Bool) (stops : kind '\x00' = false) (s : Stream) : Stream :=
  if h : kind (s.ahead 0) then
    have _inside : s.pos < s.size :=
      Nat.lt_of_not_le fun hend => Bool.false_ne_true (stops.symm.trans (ahead_at_end hend ▸ h))
    skipWhile kind stops s.skip
  else s
termination_by s.size - s.pos
decreasing_by exact Nat.sub_lt_sub_left _inside (Nat.lt_succ_self _)

/-! ## Steps -/

/-- What a step comes to. -/
inductive Found where
  | token (kind : Kind)
  /-- A blank or a comment. -/
  | nothing
  | error (error : LexError)
  deriving DecidableEq

/-- A mark. -/
def mark (m : Mark) (s : Stream) : Found × Stream :=
  (.token (.mark m), s)

/-- A mark of two characters before an equality sign, otherwise one of a single character. -/
def either (double single : Mark) (s : Stream) : Found × Stream :=
  if s.sees '=' then s.skip.mark double else s.mark single

/-- A comment, its slashes having been read. It stops before the end of its line, which is counted
when it is read. -/
def comment (s : Stream) : Found × Stream :=
  (.nothing, { s with pos := (s.find? '\n' s.pos).getD s.size })

/-- A string, its first quote having been read. It counts the lines that end in it. -/
def string (s : Stream) : Option (Found × Stream) :=
  match s.find? quote s.pos with
  | none =>
    let line := s.line + lineFeeds (s.source.toByteArray.extract s.pos s.size)
    some (.error ⟨line, .unterminated⟩, { s with line := line, pos := s.size })
  | some close => do
    let body ← slice? s.source s.pos close
    let line := s.line + lineFeeds body.toByteArray
    some (.token (.string body), { s with line := line, pos := close + 1 })

/-- Goes over digits. -/
def skipDigits (s : Stream) : Stream :=
  s.skipWhile isDigit (by decide)

/-- Goes over a point and digits, if at least one digit follows the point. -/
def skipFraction (s : Stream) : Stream :=
  if s.ahead 0 == '.' && isDigit (s.ahead 1) then s.skip.skipDigits else s

/-- A number, its first digit having been read. -/
def number (s : Stream) : Option (Found × Stream) := do
  let s := s.skipDigits.skipFraction
  let text ← s.lexeme?
  some (.token (.number (numberOf text.toList)), s)

/-- A word, its first letter having been read. -/
def word (s : Stream) : Option (Found × Stream) := do
  let s := s.skipWhile isWordChar (by decide)
  let text ← s.lexeme?
  some (.token (wordKind text.toList), s)

/-- A character that begins nothing, of as many bytes as it has. -/
def unexpected (s : Stream) : Option (Found × Stream) := do
  let place ← s.source.pos? ⟨s.start⟩
  let c := place.get?.getD '\uFFFD'
  some (.error ⟨s.line, .unexpected c⟩, { s with pos := s.start + c.utf8Size })

/-- Reads a lexeme, a blank or a comment; its first byte tells which. Only a cut through a character
makes it fail. -/
def scanToken (s : Stream) : Option (Found × Stream) :=
  let first := s.ahead 0
  let s := s.skip
  match first with
  | '(' => some (s.mark .leftParen)
  | ')' => some (s.mark .rightParen)
  | '\x7b' => some (s.mark .leftBrace)
  | '\x7d' => some (s.mark .rightBrace)
  | ',' => some (s.mark .comma)
  | '.' => some (s.mark .dot)
  | '-' => some (s.mark .minus)
  | '+' => some (s.mark .plus)
  | ';' => some (s.mark .semicolon)
  | '*' => some (s.mark .star)
  | '!' => some (s.either .bangEqual .bang)
  | '=' => some (s.either .equalEqual .equal)
  | '<' => some (s.either .lessEqual .less)
  | '>' => some (s.either .greaterEqual .greater)
  | '/' => some (if s.sees '/' then s.skip.comment else s.mark .slash)
  | ' ' | '\r' | '\t' => some (.nothing, s)
  | '\n' => some (.nothing, { s with line := s.line + 1 })
  | '\x22' => s.string
  | first =>
    if isDigit first then s.number
    else if isLetter first then s.word
    else s.unexpected

/-! ## Each step takes a byte -/

variable {s : Stream}

/-- What a step comes to is of the same source, and no bytes are given back. -/
def Onward (s : Stream) (step : Option (Found × Stream)) : Prop :=
  ∀ found s', step = some (found, s') → s'.source = s.source ∧ s.pos ≤ s'.pos

theorem onward_some {found : Found} {s' : Stream} (hsource : s'.source = s.source)
    (hpos : s.pos ≤ s'.pos) : s.Onward (some (found, s')) := by
  intro found' s'' h
  obtain ⟨-, rfl⟩ := Prod.mk.inj (Option.some.inj h)
  exact ⟨hsource, hpos⟩

theorem onward_bind {α : Type} {cut : Option α} {step : α → Option (Found × Stream)}
    (h : ∀ a, s.Onward (step a)) : s.Onward (cut >>= step) := by
  cases cut with
  | none => exact fun _ _ hnone => nomatch hnone
  | some a => exact h a

theorem Onward.of_skip {step : Option (Found × Stream)} (h : s.skip.Onward step) :
    s.Onward step :=
  fun found s' hstep =>
    ⟨(h found s' hstep).1, Nat.le_of_succ_le (h found s' hstep).2⟩

theorem le_of_find? {c : Char} {place found : Nat} (h : s.find? c place = some found) :
    place ≤ found := by
  fun_induction find? s c place with
  | case1 => exact Nat.le_of_eq (Option.some.inj h)
  | case2 _ _ _ ih => exact Nat.le_of_succ_le (ih h)
  | case3 => cases h

theorem source_skipWhile (kind : Char → Bool) (stops : kind '\x00' = false) (s : Stream) :
    (s.skipWhile kind stops).source = s.source ∧ s.pos ≤ (s.skipWhile kind stops).pos := by
  fun_induction skipWhile kind stops s with
  | case1 s _ _ ih => exact ⟨ih.1, Nat.le_of_succ_le ih.2⟩
  | case2 => exact ⟨rfl, Nat.le_refl _⟩

theorem source_skipFraction (s : Stream) :
    s.skipFraction.source = s.source ∧ s.pos ≤ s.skipFraction.pos := by
  unfold skipFraction
  split
  · obtain ⟨hsource, hpos⟩ := source_skipWhile isDigit (by decide) s.skip
    exact ⟨hsource, Nat.le_of_succ_le hpos⟩
  · exact ⟨rfl, Nat.le_refl _⟩

theorem onward_mark (m : Mark) : s.Onward (some (s.mark m)) :=
  onward_some rfl (Nat.le_refl _)

theorem onward_either (double single : Mark) : s.Onward (some (s.either double single)) := by
  unfold either
  split
  · exact (onward_mark double).of_skip
  · exact onward_mark single

theorem pos_lt_size_of_sees {c : Char} (h : s.sees c) : s.pos < s.size := by
  simp only [sees, atEnd, Bool.and_eq_true, Bool.not_eq_true', decide_eq_false_iff_not] at h
  exact Nat.lt_of_not_le h.1

theorem onward_comment (hpos : s.pos ≤ s.size) : s.Onward (some s.comment) := by
  refine onward_some rfl ?_
  cases hfind : s.find? '\n' s.pos with
  | none => exact hpos
  | some place => exact le_of_find? hfind

theorem onward_string (hpos : s.pos ≤ s.size) : s.Onward s.string := by
  unfold string
  split
  · exact onward_some rfl hpos
  · next close hclose =>
    exact onward_bind fun _ => onward_some rfl (Nat.le_succ_of_le (le_of_find? hclose))

theorem onward_number : s.Onward s.number := by
  obtain ⟨hsource, hpos⟩ := source_skipWhile isDigit (by decide) s
  obtain ⟨hsource', hpos'⟩ := source_skipFraction s.skipDigits
  exact onward_bind fun _ => onward_some (hsource'.trans hsource) (Nat.le_trans hpos hpos')

theorem onward_word : s.Onward s.word := by
  obtain ⟨hsource, hpos⟩ := source_skipWhile isWordChar (by decide) s
  exact onward_bind fun _ => onward_some hsource hpos

theorem onward_unexpected (h : s.pos = s.start + 1) : s.Onward s.unexpected :=
  onward_bind fun _ => onward_some rfl (h ▸ Nat.add_le_add_left (Char.utf8Size_pos _) _)

/-- A step from the beginning of a lexeme takes a byte at least. -/
theorem onward_scanToken (hpos : s.pos < s.size) (hstart : s.start = s.pos) :
    s.skip.Onward s.scanToken := by
  unfold scanToken
  dsimp only
  split
  case h_15 =>
    split
    · next hslash =>
      have hinside : s.skip.skip.pos ≤ s.skip.skip.size := pos_lt_size_of_sees hslash
      exact (onward_comment hinside).of_skip
    · exact onward_mark _
  case h_20 => exact onward_string hpos
  case h_21 =>
    split
    · exact onward_number
    · split
      · exact onward_word
      · exact onward_unexpected (congrArg Nat.succ hstart.symm)
  all_goals first
    | exact onward_mark _
    | exact onward_either _ _
    | exact onward_some rfl (Nat.le_refl _)

/-! ## Items -/

/-- What comes of asking for an item. -/
inductive Pulled where
  | item (item : Item) (rest : Stream)
  /-- The end token has been given. -/
  | ended
  /-- A character would have been cut in two. -/
  | failed

/-- The next item. Blanks and comments are passed over. -/
def pull (s : Stream) : Pulled :=
  if s.ended then .ended
  else if _atEnd : s.atEnd then .item (.last s.line) { s with ended := true }
  else
    match _step : s.anew.scanToken with
    | none => .failed
    | some (.token kind, rest) =>
      match rest.lexeme? with
      | none => .failed
      | some text => .item (.token ⟨kind, text, rest.line⟩) rest
    | some (.nothing, rest) => pull rest
    | some (.error e, rest) => .item (.error e) rest
termination_by s.size - s.pos
decreasing_by
  have hinside : s.pos < s.size := by simpa [atEnd] using _atEnd
  obtain ⟨hsource, hpos⟩ := @onward_scanToken s.anew hinside rfl _ _ _step
  rw [size, hsource]
  exact Nat.sub_lt_sub_left hinside hpos

/-- The next item, and the stream behind it; none after the end token. -/
def next? (s : Stream) : Option (Item × Stream) :=
  match s.pull with
  | .item item rest => some (item, rest)
  | .ended => none
  | .failed => none

/-- The items still to come, and the stream once they are taken; `limit` bounds their number. -/
def take : (limit : Nat) → Stream → List Item × Stream
  | 0, s => ([], s)
  | limit + 1, s =>
    match s.next? with
    | none => ([], s)
    | some (item, rest) =>
      let (items, final) := take limit rest
      (item :: items, final)

/-- All items still to come, and the ended stream. -/
def drain (s : Stream) : List Item × Stream :=
  s.take (s.size + 1)

end Stream

/-- The tokens and the lexical errors of a source, each in order; the tokens end with `eof`. -/
def scan (source : String) : List Token × List LexError :=
  let items := (Stream.ofSource source).drain.1
  (Item.tokens items, Item.errors items)

end LoxLang
