import Mathlib.Data.List.Forall2
import LoxLang.Proofs.Scanning.Bytes
import LoxLang.Proofs.Scanning.Lexemes

/-!
# Steps over the bytes of a source

1. `Stream.scanToken_eq`: a step goes over the first span of what is left, and finds what it is.
-/

namespace LoxLang

open Lexical Utf8

/-- What a step finds that goes over a span, which ends on this line. -/
def Stream.Found.ofShape (line : Nat) : Shape → Stream.Found
  | .blank => .nothing
  | .token kind => .token kind
  | .fault fault => .error ⟨line, fault⟩

namespace Stream

/-- The stream behind a span. -/
def behind (s : Stream) (span : Span) : Stream :=
  { s.pass (width span.text) with line := s.line + span.newlines }

/-- What a step comes to that goes over a span. -/
def reads (s : Stream) (span : Span) : Found × Stream :=
  (.ofShape (s.line + span.newlines) span.shape, s.behind span)

theorem reads_of_no_newline (s : Stream) {text : List Char} (shape : Shape) (h : '\n' ∉ text) :
    s.reads ⟨text, shape⟩ = (.ofShape s.line shape, s.pass (width text)) := by
  have hnone : text.count '\n' = 0 := List.count_eq_zero.2 h
  simp [reads, behind, Span.newlines, hnone, pass]

theorem pass_pass (s : Stream) (text more : List Char) :
    (s.pass (width text)).pass (width more) = s.pass (width (text ++ more)) := by
  simp only [pass, width_append, Nat.add_assoc]

theorem skip_pass_width (s : Stream) {c : Char} (hc : c.toNat < 128) (text : List Char) :
    s.skip.pass (width text) = s.pass (width (c :: text)) := by
  rw [At.skip_eq hc, pass_pass]
  rfl

theorem lineFeeds_eq (bytes : ByteArray) :
    lineFeeds bytes = (bytes.data.toList.map Char.ofUInt8).count '\n' := by
  have hbyte : ∀ b : UInt8, Char.ofUInt8 b = '\n' ↔ b = '\n'.toUInt8 := by
    intro b
    rw [← Char.toNat_inj, toNat_ofUInt8, ← UInt8.toNat_inj]
    rfl
  rw [lineFeeds, ← Array.count_toList, List.count, List.count, List.countP_map]
  exact List.countP_congr fun b _ => by simp [hbyte]

theorem lineFeeds_extract (s : Stream) (first last : Nat) :
    lineFeeds (s.source.toByteArray.extract first last) =
      ((s.bytesFrom first).take (last - first)).count '\n' := by
  rw [lineFeeds_eq, ByteArray.data_extract, Array.toList_extract, List.extract, List.map_take,
    List.map_drop]
  rfl

theorem lineFeeds_ofList (text : List Char) :
    lineFeeds (String.ofList text).toByteArray = text.count '\n' := by
  have hunits : (String.ofList text).toByteArray.data.toList.map Char.ofUInt8 = units text :=
    units_source (s := ofSource (String.ofList text)) rfl
  rw [lineFeeds_eq, hunits, count_units (by decide)]

theorem takeWhile_of_not_mem {c : Char} {text : List Char} (h : c ∉ text) :
    text.takeWhile (· != c) = text :=
  List.takeWhile_eq_self_iff.2 fun d hd => by simpa using ne_of_mem_of_not_mem hd h

section

variable {s : Stream} {before rest : List Char}

/-- The rest of the source holds the line ends of the characters that are left. -/
theorem lineFeeds_rest (h : s.At before rest) :
    lineFeeds (s.source.toByteArray.extract s.pos s.size) = rest.count '\n' := by
  rw [lineFeeds_extract, ← length_bytesFrom, List.take_length, h.bytesFrom,
    count_units (by decide)]

theorem lexeme?_eq {text : List Char} (h : s.At before (text ++ rest)) (hstart : s.start = s.pos) :
    (s.pass (width text)).lexeme? = some (String.ofList text) := by
  rw [← h.slice?_eq, ← hstart, lexeme?, pass, hstart]

/-- A comment stops before the end of its line. -/
theorem comment_eq (h : s.At before ('/' :: '/' :: rest)) :
    s.skip.skip.comment = s.reads (Span.comment rest).1 := by
  have hinside : s.skip.skip.At (before ++ ['/'] ++ ['/']) rest :=
    (h.skip (by decide)).skip (by decide)
  have hplace : (s.skip.skip.find? '\n' s.skip.skip.pos).getD s.skip.skip.size =
      s.skip.skip.pos + width (rest.takeWhile (· != '\n')) := by
    rw [hinside.find?_eq (by decide), hinside.size]
    split
    · rfl
    · next hnone => rw [takeWhile_of_not_mem hnone]; rfl
  have hline : '\n' ∉ '/' :: '/' :: rest.takeWhile (· != '\n') := by
    simpa using Span.not_mem_takeWhile '\n' rest
  rw [comment, hplace, Span.comment, reads_of_no_newline s _ hline,
    ← skip_pass_width _ (by decide), ← skip_pass_width _ (by decide)]
  rfl

theorem quoted_of_mem (h : quote ∈ rest) :
    (Span.quoted rest).1 = ⟨[quote] ++ rest.takeWhile (· != quote) ++ [quote],
      .token (.string (String.ofList (rest.takeWhile (· != quote))))⟩ := by
  have hne : rest.dropWhile (· != quote) ≠ [] := fun hnil =>
    absurd (List.dropWhile_eq_nil_iff.1 hnil quote h) (by simp)
  obtain ⟨close, after, hclose⟩ := List.exists_cons_of_ne_nil hne
  obtain rfl := Span.eq_quote_of_dropWhile hclose
  simp [Span.quoted, hclose]

theorem quoted_of_not_mem (h : quote ∉ rest) :
    (Span.quoted rest).1 = ⟨[quote] ++ rest, .fault .unterminated⟩ := by
  have hdrop : rest.dropWhile (· != quote) = [] :=
    List.dropWhile_eq_nil_iff.2 (List.takeWhile_eq_self_iff.1 (takeWhile_of_not_mem h))
  simp [Span.quoted, hdrop, takeWhile_of_not_mem h]

/-- A string goes to the next quote, or else to the end of the source. -/
theorem string_eq (h : s.At before (quote :: rest)) :
    s.skip.string = some (s.reads (Span.quoted rest).1) := by
  have hinside := h.skip (by decide)
  have hfind := hinside.find?_eq (c := quote) (by decide)
  have hquote : width [quote] = 1 := width_of_ascii (by decide)
  by_cases hclosed : quote ∈ rest
  · have hbody : s.skip.At (before ++ [quote])
        (rest.takeWhile (· != quote) ++ rest.dropWhile (· != quote)) := by
      rw [List.takeWhile_append_dropWhile]
      exact hinside
    have hcount : ([quote] ++ rest.takeWhile (· != quote) ++ [quote]).count '\n' =
        (rest.takeWhile (· != quote)).count '\n' := by
      simp [quote]
    have hwidth : width ([quote] ++ rest.takeWhile (· != quote) ++ [quote]) =
        1 + width (rest.takeWhile (· != quote)) + 1 := by
      rw [width_append, width_append, hquote]
    rw [if_pos hclosed] at hfind
    rw [quoted_of_mem hclosed, reads, behind, Span.newlines, hcount, hwidth, string, hfind]
    simp only [hbody.slice?_eq, Option.bind_eq_bind, Option.bind_some, lineFeeds_ofList]
    simp only [pass, skip, Nat.add_assoc]
    rfl
  · have hcount : ([quote] ++ rest).count '\n' = rest.count '\n' := by
      simp [quote]
    have hwidth : width ([quote] ++ rest) = 1 + width rest := by
      rw [width_append, hquote]
    rw [if_neg hclosed] at hfind
    rw [quoted_of_not_mem hclosed, reads, behind, Span.newlines, hcount, hwidth, string, hfind]
    dsimp only
    rw [lineFeeds_rest hinside, hinside.size]
    simp only [pass, skip, Nat.add_assoc]
    rfl

theorem ascii_isWordChar : Ascii isWordChar := by
  intro c h
  simp only [isWordChar, isLetter, isDigit, Bool.or_eq_true, Bool.and_eq_true, decide_eq_true_eq,
    beq_iff_eq, Char.le_def, UInt32.le_iff_toNat_le] at h
  have hlast : 'z'.val.toNat = 122 := rfl
  have hcapital : 'Z'.val.toNat = 90 := rfl
  have hnine : '9'.val.toNat = 57 := rfl
  have hc : c.toNat = c.val.toNat := rfl
  rcases h with ((h | h) | rfl) | h
  · omega
  · omega
  · decide
  · omega

theorem ascii_isLetter : Ascii isLetter :=
  fun c h => ascii_isWordChar c (Span.isWordChar_of_isLetter h)

theorem ascii_isDigit : Ascii isDigit :=
  fun c h => ascii_isWordChar c (Span.isWordChar_of_isDigit h)

theorem ascii_beq {d : Char} (hd : d.toNat < 128) : Ascii (· == d) :=
  fun _ h => beq_iff_eq.1 h ▸ hd

theorem of_mem_run {kind : Char → Bool} {c d : Char} {rest : List Char} (hc : kind c)
    (h : d ∈ c :: rest.takeWhile kind) : kind d := by
  rcases List.mem_cons.1 h with rfl | h
  · exact hc
  · exact List.mem_takeWhile_imp h

/-- A point and digits, if they are next. -/
def fraction : List Char → List Char
  | '.' :: d :: after => if isDigit d then '.' :: d :: after.takeWhile isDigit else []
  | _ => []

theorem fraction_of_isDigit {d : Char} (hd : isDigit d) (after : List Char) :
    fraction ('.' :: d :: after) = '.' :: d :: after.takeWhile isDigit :=
  if_pos hd

theorem fraction_of_not {text : List Char}
    (h : ∀ d after, text = '.' :: d :: after → isDigit d = false) : fraction text = [] := by
  unfold fraction
  split
  · next d after => rw [h d after rfl, if_neg Bool.false_ne_true]
  · rfl

theorem mem_fraction {text : List Char} {c : Char} (h : c ∈ fraction text) :
    isDigit c ∨ c = '.' := by
  unfold fraction at h
  split at h
  · next d after =>
    split at h
    · next hd =>
      rcases List.mem_cons.1 h with rfl | h
      · exact .inr rfl
      · exact .inl (of_mem_run hd h)
    · cases h
  · cases h

theorem point_iff (h : s.At before rest) : (s.ahead 0 == '.' && isDigit (s.ahead 1)) ↔
    ∃ d after, rest = '.' :: d :: after ∧ isDigit d := by
  have hahead : (s.ahead 0 == '.') = rest.head?.any (· == '.') :=
    h.kind_ahead (ascii_beq (by decide)) (by decide)
  rw [Bool.and_eq_true, hahead]
  constructor
  · rintro ⟨hpoint, hdigit⟩
    cases rest with
    | nil => cases hpoint
    | cons c rest =>
      obtain rfl : c = '.' := by simpa using hpoint
      have hnext : isDigit (s.skip.ahead 0) := hdigit
      rw [(h.skip (by decide)).kind_ahead ascii_isDigit (by decide)] at hnext
      cases rest with
      | nil => cases hnext
      | cons d after => exact ⟨d, after, rfl, hnext⟩
  · rintro ⟨d, after, rfl, hd⟩
    have hnext : isDigit (s.skip.ahead 0) := by
      rw [(h.skip (by decide)).kind_ahead ascii_isDigit (by decide)]
      exact hd
    exact ⟨rfl, hnext⟩

theorem skipFraction_eq (h : s.At before rest) :
    s.skipFraction = s.pass (width (fraction rest)) := by
  have hpoint := point_iff h
  unfold skipFraction
  split
  · next hnext =>
    obtain ⟨d, after, rfl, hd⟩ := hpoint.1 hnext
    have hskip : s.skip.At (before ++ ['.']) (d :: after) := h.skip (by decide)
    rw [fraction_of_isDigit hd, skipDigits, hskip.skipWhile_eq ascii_isDigit,
      skip_pass_width s (c := '.') (by decide), List.takeWhile_cons_of_pos hd]
  · next hnext =>
    have hnot : ∀ d after, rest = '.' :: d :: after → isDigit d = false := fun d after hrest =>
      Bool.eq_false_iff.2 fun hd => hnext (hpoint.2 ⟨d, after, hrest, hd⟩)
    rw [fraction_of_not hnot]
    rfl

theorem numberOf_whole {digits : List Char} (h : ∀ d ∈ digits, isDigit d) :
    numberOf digits = numberValue digits [] := by
  have hpoint : '.' ∉ digits := fun hmem => absurd (h _ hmem) (by decide)
  have hdrop : digits.dropWhile (· ≠ '.') = [] := by
    rw [List.dropWhile_eq_nil_iff]
    exact fun d hd => decide_eq_true (ne_of_mem_of_not_mem hd hpoint)
  have htake : digits.takeWhile (· ≠ '.') = digits :=
    List.takeWhile_eq_self_iff.2 fun d hd => decide_eq_true (ne_of_mem_of_not_mem hd hpoint)
  rw [numberOf, htake, hdrop, List.tail_nil]

theorem numberOf_decimal {digits fraction : List Char} (h : ∀ d ∈ digits, isDigit d) :
    numberOf (digits ++ '.' :: fraction) = numberValue digits fraction := by
  have hpoint : ∀ d ∈ digits, decide (d ≠ '.') = true := fun d hd =>
    decide_eq_true fun hd' => absurd (h _ (hd' ▸ hd)) (by decide)
  rw [numberOf, List.takeWhile_append_of_pos hpoint, List.dropWhile_append_of_pos hpoint,
    List.takeWhile_cons_of_neg (by decide), List.dropWhile_cons_of_neg (by decide),
    List.append_nil, List.tail_cons]

theorem number_eq_fraction {c : Char} (hc : isDigit c) (rest : List Char) :
    (Span.number c rest).1 =
      ⟨c :: rest.takeWhile isDigit ++ fraction (rest.dropWhile isDigit),
        .token (.number (numberOf
          (c :: rest.takeWhile isDigit ++ fraction (rest.dropWhile isDigit))))⟩ := by
  have hwhole : ∀ d ∈ c :: rest.takeWhile isDigit, isDigit d := fun _ => of_mem_run hc
  unfold Span.number
  split
  · next d after hstop =>
    split
    · next hd => rw [hstop, fraction_of_isDigit hd, numberOf_decimal hwhole]
    · next hd =>
      rw [hstop, fraction_of_not, List.append_nil, numberOf_whole hwhole]
      rintro _ _ ⟨⟩
      exact Bool.eq_false_iff.2 hd
  · next hstop =>
    rw [fraction_of_not fun d after h => (hstop d after h).elim, List.append_nil,
      numberOf_whole hwhole]

/-- A number goes over digits, and over a point if a digit follows it. -/
theorem number_eq {c : Char} (hc : isDigit c) (h : s.At before (c :: rest))
    (hstart : s.start = s.pos) : s.skip.number = some (s.reads (Span.number c rest).1) := by
  have hascii : c.toNat < 128 := ascii_isDigit c hc
  have hwhole : s.At before (c :: rest.takeWhile isDigit ++ rest.dropWhile isDigit) := by
    rw [List.cons_append, List.takeWhile_append_dropWhile]
    exact h
  have hnumber := number_eq_fraction hc rest
  generalize htext :
    c :: rest.takeWhile isDigit ++ fraction (rest.dropWhile isDigit) = text at hnumber
  have hskip : s.skip.skipDigits.skipFraction = s.pass (width text) := by
    rw [skipDigits, (h.skip hascii).skipWhile_eq ascii_isDigit, skip_pass_width _ hascii,
      skipFraction_eq hwhole.pass, pass_pass, htext]
  have hmore : text ++ (Span.number c rest).2 = c :: rest := by
    rw [← Span.number_text c rest, hnumber]
  have hline : '\n' ∉ text := by
    subst htext
    rw [List.mem_append, not_or]
    exact ⟨fun h => absurd (of_mem_run hc h) (by decide),
      fun h => absurd (mem_fraction h) (by decide)⟩
  rw [number, hskip, lexeme?_eq (hmore ▸ h) hstart, hnumber, reads_of_no_newline s _ hline,
    Option.bind_eq_bind, Option.bind_some, String.toList_ofList]
  rfl

/-- A word goes over letters and digits. -/
theorem word_eq {c : Char} (hc : isLetter c) (h : s.At before (c :: rest))
    (hstart : s.start = s.pos) : s.skip.word = some (s.reads (Span.word c rest).1) := by
  have hword : isWordChar c := Span.isWordChar_of_isLetter hc
  have hascii : c.toNat < 128 := ascii_isWordChar c hword
  have hrest : c :: rest = c :: rest.takeWhile isWordChar ++ rest.dropWhile isWordChar :=
    (congrArg (c :: ·) List.takeWhile_append_dropWhile).symm
  have hline : '\n' ∉ c :: rest.takeWhile isWordChar :=
    fun h => absurd (of_mem_run hword h) (by decide)
  rw [word, (h.skip hascii).skipWhile_eq ascii_isWordChar, skip_pass_width _ hascii,
    lexeme?_eq (hrest ▸ h) hstart, Span.word, reads_of_no_newline s _ hline]
  rw [Option.bind_eq_bind, Option.bind_some, String.toList_ofList]
  rfl

/-- What begins nothing is gone over as one character. -/
theorem unexpected_eq {c : Char} (h : s.At before (c :: rest)) (hstart : s.start = s.pos)
    (hline : c ≠ '\n') :
    s.skip.unexpected = some (s.reads ⟨[c], .fault (.unexpected c)⟩) := by
  obtain ⟨place, hplace, hsplits⟩ := exists_pos h.source
  have hcons : String.ofList (c :: rest) = String.singleton c ++ String.ofList rest := by
    rw [String.singleton_eq_ofList, ← String.ofList_append]
    rfl
  rw [hcons] at hsplits
  have hget : place.get? = some c := by
    rw [String.Pos.get?_eq_some_get hsplits.ne_endPos_of_singleton,
      hsplits.next.get_eq_of_singleton]
  have hwidth : width [c] = c.utf8Size := by
    rw [width, units, List.flatMap_singleton, List.length_map, String.length_utf8EncodeChar]
  rw [← h.pos, ← hstart] at hplace
  have hstep : s.skip.unexpected = some (.error ⟨s.line, .unexpected c⟩,
      { s.skip with pos := s.start + c.utf8Size }) := by
    simp [unexpected, skip, hplace, hget]
  rw [hstep, reads_of_no_newline s _ (by simpa using hline.symm), hwidth, pass, ← hstart]
  rfl

/-! ## Marks -/

/-- The characters that are marks on their own. -/
def marks : List Char :=
  ['(', ')', '\x7b', '\x7d', ',', '.', '-', '+', ';', '*', '!', '=', '<', '>', '/']

theorem mem_marks {m : Mark} {c : Char} (h : Mark.ofText? (String.singleton c) = some m) :
    c ∈ marks := by
  have htext : m.text.toList = [c] := by rw [Mark.text_of_ofText? h, String.toList_singleton]
  cases m <;> simp [Mark.text] at htext <;> subst htext <;> decide

/-- The characters that alone tell a step what is there. -/
def telling : List Char :=
  marks ++ [' ', '\r', '\t', '\n', quote]

theorem ascii_of_mem_telling {c : Char} (h : c ∈ telling) : c.toNat < 128 := by
  revert c
  simp [telling, marks, quote]

theorem ascii_of_mem_marks {c : Char} (h : c ∈ marks) : c.toNat < 128 :=
  ascii_of_mem_telling (List.mem_append_left _ h)

/-- A character that is a mark begins no other class of text, slashes apart. -/
theorem plain_of_mem_marks {c : Char} (h : c ∈ marks) :
    Span.isBlank c = false ∧ c ≠ quote ∧ isDigit c = false ∧ isLetter c = false := by
  revert c
  simp [marks, Span.isBlank, quote, isDigit, isLetter]

theorem mem_marks_of_pair {c : Char} (h : c ∈ ['!', '=', '<', '>']) : c ∈ marks := by
  revert c
  simp [marks]

/-- Marks of two characters end in an equality sign. -/
theorem eq_of_pair {m : Mark} {c d : Char} (h : Mark.ofText? (String.ofList [c, d]) = some m) :
    d = '=' ∧ c ∈ ['!', '=', '<', '>'] := by
  have htext : m.text.toList = [c, d] := by rw [Mark.text_of_ofText? h, String.toList_ofList]
  cases m <;> simp [Mark.text] at htext <;> obtain ⟨rfl, rfl⟩ := htext <;> decide

theorem mark_eq_single {c : Char} (h : ∀ after, rest = '=' :: after → c ∉ ['!', '=', '<', '>']) :
    (Span.mark c rest).1 = Span.single c := by
  unfold Span.mark
  split
  · rfl
  · next d after =>
    split
    · next m hm =>
      obtain ⟨rfl, hc⟩ := eq_of_pair hm
      exact absurd hc (h after rfl)
    · rfl

/-- What is no blank, quote, digit, letter or slash begins a mark, if anything. -/
theorem first_eq_mark {c : Char} (hblank : Span.isBlank c = false) (hquote : c ≠ quote)
    (hdigit : isDigit c = false) (hletter : isLetter c = false) (hslash : c ≠ '/')
    (rest : List Char) : Span.first c rest = Span.mark c rest := by
  unfold Span.first
  rw [hblank, hdigit, hletter, if_neg Bool.false_ne_true, if_neg hquote, if_neg Bool.false_ne_true,
    if_neg Bool.false_ne_true]
  split
  · exact absurd rfl hslash
  · rfl

/-- A mark of one character. -/
theorem single_eq {c : Char} {m : Mark} (h : Mark.ofText? (String.singleton c) = some m) :
    Span.single c = ⟨[c], .token (.mark m)⟩ := by
  rw [Span.single, h]

theorem mark_eq {c : Char} {m : Mark} (hm : Mark.ofText? (String.singleton c) = some m) :
    s.skip.mark m = s.reads (Span.single c) := by
  have hascii : c.toNat < 128 := ascii_of_mem_marks (mem_marks hm)
  have hline : '\n' ∉ [c] := fun h =>
    absurd (mem_marks hm) (List.mem_singleton.1 h ▸ by decide)
  rw [single_eq hm, reads_of_no_newline s _ hline, ← At.skip_eq hascii]
  rfl

theorem either_eq {c : Char} {double single : Mark}
    (hdouble : Mark.ofText? (String.ofList [c, '=']) = some double)
    (hsingle : Mark.ofText? (String.singleton c) = some single) (h : s.At before (c :: rest)) :
    s.skip.either double single = s.reads (Span.mark c rest).1 := by
  have hascii : c.toNat < 128 := ascii_of_mem_marks (mem_marks hsingle)
  have hskip := h.skip hascii
  unfold either
  split
  · next hsees =>
    obtain ⟨after, rfl⟩ := (hskip.sees_iff (by decide)).1 hsees
    have hline : '\n' ∉ [c, '='] := by
      have hc : c ≠ '\n' := fun h => absurd (mem_marks hsingle) (h ▸ by decide)
      simpa using Ne.symm hc
    have hmark : (Span.mark c ('=' :: after)).1 = ⟨[c, '='], .token (.mark double)⟩ := by
      rw [Span.mark, hdouble]
    rw [hmark, reads_of_no_newline s _ hline, ← skip_pass_width s hascii, ← At.skip_eq (by decide)]
    rfl
  · next hsees =>
    rw [mark_eq_single fun after hafter =>
      absurd ((hskip.sees_iff (by decide)).2 ⟨after, hafter⟩) hsees]
    exact mark_eq hsingle

theorem alone_eq {c : Char} {m : Mark} (hm : Mark.ofText? (String.singleton c) = some m)
    (hc : c ∉ ['!', '=', '<', '>', '/']) :
    some (s.skip.mark m) = some (s.reads (Span.first c rest).1) := by
  obtain ⟨hblank, hquote, hdigit, hletter⟩ := plain_of_mem_marks (mem_marks hm)
  have hslash : c ≠ '/' := by
    rintro rfl
    exact hc (by decide)
  have hpair : c ∉ ['!', '=', '<', '>'] := fun h => hc (List.mem_append_left ['/'] h)
  rw [first_eq_mark hblank hquote hdigit hletter hslash, mark_eq_single fun _ _ => hpair,
    mark_eq hm]

/-- A slash, of which another one makes a comment. -/
theorem slash_eq (h : s.At before ('/' :: rest)) :
    (if s.skip.sees '/' then s.skip.skip.comment else s.skip.mark .slash) =
      s.reads (Span.first '/' rest).1 := by
  have hskip := h.skip (by decide)
  split
  · next hsees =>
    obtain ⟨after, rfl⟩ := (hskip.sees_iff (by decide)).1 hsees
    exact comment_eq h
  · next hsees =>
    have hfirst : Span.first '/' rest = Span.mark '/' rest := by
      cases rest with
      | nil => rfl
      | cons d after =>
        have hd : d ≠ '/' := fun hd =>
          hsees ((hskip.sees_iff (by decide)).2 ⟨after, congrArg (· :: after) hd⟩)
        simp [Span.first, hd, Span.isBlank, isDigit, isLetter, quote]
    rw [hfirst, mark_eq_single fun _ _ => by decide]
    exact mark_eq (by decide)

theorem scanToken_of_telling {c : Char} (hc : c ∈ telling) (h : s.At before (c :: rest)) :
    s.scanToken = some (s.reads (Span.first c rest).1) := by
  have hascii : c.toNat < 128 := ascii_of_mem_telling hc
  unfold scanToken
  dsimp only
  rw [h.ahead_cons hascii]
  split
  case h_11 | h_12 | h_13 | h_14 => exact congrArg some (either_eq (by decide) (by decide) h)
  case h_15 => exact congrArg some (slash_eq h)
  case h_16 | h_17 | h_18 | h_19 => rfl
  case h_20 => exact string_eq h
  case h_21 =>
    refine absurd hc ?_
    simp only [telling, marks, quote, List.cons_append, List.nil_append, List.mem_cons, not_or]
    and_intros <;> first | assumption | exact List.not_mem_nil
  all_goals exact alone_eq (by decide) (by decide)

theorem scanToken_of_not_telling (h : s.ahead 0 ∉ telling) :
    s.scanToken =
      if isDigit (s.ahead 0) then s.skip.number
      else if isLetter (s.ahead 0) then s.skip.word
      else s.skip.unexpected := by
  unfold scanToken
  dsimp only
  split
  case h_21 => rfl
  all_goals exact absurd (by simp [telling, marks, quote, *]) h

/-- What alone tells nothing and is no digit or letter is gone over as one character. -/
theorem unexpected_of_not_telling {c : Char} (hc : c ∉ telling) (hdigit : isDigit c = false)
    (hletter : isLetter c = false) (h : s.At before (c :: rest)) (hstart : s.start = s.pos) :
    s.skip.unexpected = some (s.reads (Span.first c rest).1) := by
  obtain ⟨hmarks, hothers⟩ := not_or.1 (mt List.mem_append.2 hc)
  simp only [List.mem_cons, List.not_mem_nil, not_or, or_false] at hothers
  obtain ⟨hspace, hreturn, htab, hline, hquote⟩ := hothers
  have hblank : Span.isBlank c = false := by
    simp [Span.isBlank, hspace, hreturn, htab, hline]
  have hslash : c ≠ '/' := by
    rintro rfl
    exact hmarks (by decide)
  have hpair : c ∉ ['!', '=', '<', '>'] := mt mem_marks_of_pair hmarks
  have hsingle : Span.single c = ⟨[c], .fault (.unexpected c)⟩ := by
    unfold Span.single
    split
    · next hm => exact absurd (mem_marks hm) hmarks
    · rfl
  rw [unexpected_eq h hstart hline, first_eq_mark hblank hquote hdigit hletter hslash,
    mark_eq_single fun _ _ => hpair, hsingle]

/-- A step from the beginning of a lexeme reads the first span of what is left. -/
theorem scanToken_eq {c : Char} (h : s.At before (c :: rest)) (hstart : s.start = s.pos) :
    s.scanToken = some (s.reads (Span.first c rest).1) := by
  by_cases hc : c ∈ telling
  · exact scanToken_of_telling hc h
  · -- A byte that tells is ASCII, and an ASCII byte is a character of its own.
    have hahead : s.ahead 0 ∉ telling := by
      intro hmem
      have hascii := ascii_of_mem_telling hmem
      have hsmall : c.toNat < 128 :=
        Nat.not_le.1 fun hlarge => absurd (h.le_ahead hlarge) (Nat.not_le.2 hascii)
      exact hc (h.ahead_cons hsmall ▸ hmem)
    have hdigit : isDigit (s.ahead 0) = isDigit c := h.kind_ahead ascii_isDigit (by decide)
    have hletter : isLetter (s.ahead 0) = isLetter c := h.kind_ahead ascii_isLetter (by decide)
    rw [scanToken_of_not_telling hahead, hdigit, hletter]
    split
    · next hdigit => rw [number_eq hdigit h hstart, Span.first_of_isDigit hdigit]
    · next hdigit =>
      split
      · next hletter => rw [word_eq hletter h hstart, Span.first_of_isLetter hletter]
      · next hletter =>
        exact unexpected_of_not_telling hc (Bool.eq_false_iff.2 hdigit)
          (Bool.eq_false_iff.2 hletter) h hstart

end

end Stream

end LoxLang
