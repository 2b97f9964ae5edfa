import LoxLang.Token.Stream

/-!
# Spans of source text

A source, read by characters, is cut into spans, each the longest one that its first character can
begin: a blank character, a comment, a token, or text that is no token. Nothing is dropped: the
texts of the spans, joined, are the source.

1. `Span.first_text`: a span is what stands before the rest.
2. `Span.join_tile`: the spans of a source tile it.
3. `Span.tile_ne_nil`: no span is empty.
4. `Item.ofSpans_append`: items follow the spans, and the line carries over.
-/

namespace LoxLang

open Lexical

/-- What a span of text is. Blanks and comments separate tokens and are otherwise ignored. -/
inductive Shape where
  | blank
  | token (kind : Kind)
  | fault (fault : LexFault)
  deriving DecidableEq

/-- A piece of source text and what it is. -/
structure Span where
  text : List Char
  shape : Shape
  deriving DecidableEq

namespace Span

/-- Space, tabulator, carriage return and line feed; no other character is blank. -/
def isBlank (c : Char) : Bool :=
  c == ' ' || c == '\r' || c == '\t' || c == '\n'

/-- A comment runs up to, and not over, the end of its line. -/
def comment (rest : List Char) : Span × List Char :=
  (⟨'/' :: '/' :: rest.takeWhile (· != '\n'), .blank⟩, rest.dropWhile (· != '\n'))

/-- A string runs to the next quote, over line ends too. -/
def quoted (rest : List Char) : Span × List Char :=
  let body := rest.takeWhile (· != quote)
  match rest.dropWhile (· != quote) with
  | [] => (⟨quote :: body, .fault .unterminated⟩, [])
  | close :: after => (⟨quote :: body ++ [close], .token (.string (String.ofList body))⟩, after)

/-- Digits, and a point with more digits if at least one digit follows it. -/
def number (first : Char) (rest : List Char) : Span × List Char :=
  let whole := first :: rest.takeWhile isDigit
  match rest.dropWhile isDigit with
  | '.' :: d :: after =>
    if isDigit d then
      let fraction := d :: after.takeWhile isDigit
      (⟨whole ++ '.' :: fraction, .token (.number (numberValue whole fraction))⟩,
        after.dropWhile isDigit)
    else
      (⟨whole, .token (.number (numberValue whole []))⟩, '.' :: d :: after)
  | after => (⟨whole, .token (.number (numberValue whole []))⟩, after)

/-- Letters and digits as far as they go. -/
def word (first : Char) (rest : List Char) : Span × List Char :=
  let text := first :: rest.takeWhile isWordChar
  (⟨text, .token (wordKind text)⟩, rest.dropWhile isWordChar)

/-- A mark of one character, or a character that begins nothing. -/
def single (c : Char) : Span :=
  match Mark.ofText? (String.singleton c) with
  | some m => ⟨[c], .token (.mark m)⟩
  | none => ⟨[c], .fault (.unexpected c)⟩

/-- A mark of two characters before one of a single character. -/
def mark (c : Char) (rest : List Char) : Span × List Char :=
  match rest with
  | [] => (single c, [])
  | d :: after =>
    match Mark.ofText? (String.ofList [c, d]) with
    | some m => (⟨[c, d], .token (.mark m)⟩, after)
    | none => (single c, rest)

/-- The first span of `c :: rest`, and the text after it. -/
def first (c : Char) (rest : List Char) : Span × List Char :=
  if isBlank c then (⟨[c], .blank⟩, rest)
  else if c = quote then quoted rest
  else if isDigit c then number c rest
  else if isLetter c then word c rest
  else
    match c, rest with
    | '/', '/' :: after => comment after
    | _, _ => mark c rest

theorem single_text (c : Char) : (single c).text = [c] := by
  unfold single
  split <;> rfl

theorem comment_text (rest : List Char) :
    (comment rest).1.text ++ (comment rest).2 = '/' :: '/' :: rest := by
  simp [comment, List.takeWhile_append_dropWhile]

theorem quoted_text (rest : List Char) :
    (quoted rest).1.text ++ (quoted rest).2 = quote :: rest := by
  have joined := List.takeWhile_append_dropWhile (p := (· != quote)) (l := rest)
  unfold quoted
  split
  · next closed => simpa [closed] using joined
  · next closed => simpa [closed] using joined

theorem number_text (first : Char) (rest : List Char) :
    (number first rest).1.text ++ (number first rest).2 = first :: rest := by
  have joined := List.takeWhile_append_dropWhile (p := isDigit) (l := rest)
  unfold number
  split
  · next d after stop =>
    split
    · simpa [stop, List.takeWhile_append_dropWhile] using joined
    · simpa [stop] using joined
  · simp [List.takeWhile_append_dropWhile]

theorem word_text (first : Char) (rest : List Char) :
    (word first rest).1.text ++ (word first rest).2 = first :: rest := by
  simp [word, List.takeWhile_append_dropWhile]

theorem mark_text (c : Char) (rest : List Char) :
    (mark c rest).1.text ++ (mark c rest).2 = c :: rest := by
  unfold mark
  split
  · simp [single_text]
  · split <;> simp [single_text]

/-- A span is what stands before the rest. -/
theorem first_text (c : Char) (rest : List Char) :
    (first c rest).1.text ++ (first c rest).2 = c :: rest := by
  unfold first
  split
  · rfl
  · split
    · next isQuote => rw [quoted_text, isQuote]
    · split
      · exact number_text c rest
      · split
        · exact word_text c rest
        · split
          · exact comment_text _
          · exact mark_text _ _

theorem single_ne_nil (c : Char) : (single c).text ≠ [] := by
  simp [single_text]

theorem mark_ne_nil (c : Char) (rest : List Char) : (mark c rest).1.text ≠ [] := by
  unfold mark
  split
  · exact single_ne_nil c
  · split
    · simp
    · exact single_ne_nil c

theorem quoted_ne_nil (rest : List Char) : (quoted rest).1.text ≠ [] := by
  unfold quoted
  split <;> simp

theorem number_ne_nil (first : Char) (rest : List Char) : (number first rest).1.text ≠ [] := by
  unfold number
  split
  · split <;> simp
  · simp

/-- No span is empty. -/
theorem first_ne_nil (c : Char) (rest : List Char) : (first c rest).1.text ≠ [] := by
  unfold first
  split
  · simp
  · split
    · exact quoted_ne_nil rest
    · split
      · exact number_ne_nil c rest
      · split
        · simp [word]
        · split
          · simp [comment]
          · exact mark_ne_nil _ _

/-- Each span takes at least one character, so cutting a source into spans ends. -/
theorem length_first_le (c : Char) (rest : List Char) : (first c rest).2.length ≤ rest.length := by
  have joined := congrArg List.length (first_text c rest)
  have taken := List.length_pos_iff.2 (first_ne_nil c rest)
  simp only [List.length_append, List.length_cons] at joined
  omega

/-- The spans of a source text, in order. -/
def tile : List Char → List Span
  | [] => []
  | c :: rest => (first c rest).1 :: tile (first c rest).2
termination_by source => source.length
decreasing_by exact Nat.lt_succ_of_le (length_first_le c rest)

/-- The spans of a source tile it. -/
theorem join_tile (source : List Char) : (tile source).flatMap Span.text = source := by
  fun_induction tile source with
  | case1 => rfl
  | case2 c rest ih => rw [List.flatMap_cons, ih, first_text]

theorem tile_ne_nil {source : List Char} {span : Span} (found : span ∈ tile source) :
    span.text ≠ [] := by
  fun_induction tile source with
  | case1 => exact absurd found List.not_mem_nil
  | case2 c rest ih =>
    rcases List.mem_cons.1 found with rfl | later
    · exact first_ne_nil c rest
    · exact ih later

/-- How many lines end inside a span. -/
def newlines (span : Span) : Nat :=
  span.text.count '\n'

end Span

namespace Item

/-- What a span contributes when it ends on `line`; blanks contribute nothing. -/
def ofSpan? (line : Nat) (span : Span) : Option Item :=
  match span.shape with
  | .blank => none
  | .token kind => some (token ⟨kind, String.ofList span.text, line⟩)
  | .fault fault => some (error ⟨line, fault⟩)

/-- The items of spans that begin on `line`, without the end token. -/
def ofSpans (line : Nat) : List Span → List Item
  | [] => []
  | span :: spans =>
    let line := line + span.newlines
    (ofSpan? line span).toList ++ ofSpans line spans

/-- The line on which the last of some spans ends. -/
def lastLine (line : Nat) (spans : List Span) : Nat :=
  spans.foldl (fun line span => line + span.newlines) line

theorem ofSpans_append (line : Nat) (before after : List Span) :
    ofSpans line (before ++ after) =
      ofSpans line before ++ ofSpans (lastLine line before) after := by
  induction before generalizing line with
  | nil => rfl
  | cons span spans ih => simp [ofSpans, ih, lastLine]

/-- The whole stream of a source. -/
def ofSource (source : String) : List Item :=
  let spans := Span.tile source.toList
  ofSpans 1 spans ++ [last (lastLine 1 spans)]

end Item

end LoxLang
