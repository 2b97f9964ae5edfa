import Mathlib.Data.List.TakeWhile
import LoxLang.Proofs.Scanning.Spans

/-!
# The lexical grammar

The classes of text that mean something to the language: blanks, comments, marks, numbers, strings
and words. A source is cut by taking, again and again, the longest beginning that is in a class.

1. `Lexeme.takes`: text of a class at the beginning of a source is the beginning of its first span,
   which then is no fault.
2. `Span.Explained.first`: a first span that is no fault is text of a class.
3. `Span.cut_first`, `Span.Cut.eq`: the grammar cuts off the first span, and nothing else.
-/

namespace LoxLang

open Lexical

/-- The text is in a class of the lexical grammar, and means this.

* `blank`: one space, tabulator, carriage return or line feed.
* `comment`: two slashes, and all that follows up to the end of the line, which is no part of it.
* `mark`, `keyword`: the text of a mark or of a reserved word.
* `whole`, `decimal`: digits. In a decimal number a point stands between two of them.
* `string`: what stands between two quotes, without a quote in it. Lines may end there.
* `identifier`: a letter, and more letters and digits, that are no reserved word together. The
  underscore counts as a letter. -/
inductive Lexeme : List Char → Shape → Prop
  | blank {c : Char} : c ∈ [' ', '\t', '\r', '\n'] → Lexeme [c] .blank
  | comment {body : List Char} : '\n' ∉ body → Lexeme ('/' :: '/' :: body) .blank
  | mark (m : Mark) : Lexeme m.text.toList (.token (.mark m))
  | whole {c : Char} {digits : List Char} : (∀ d ∈ c :: digits, d.isDigit) →
      Lexeme (c :: digits) (.token (.number (numberValue (c :: digits) [])))
  | decimal {c d : Char} {digits fraction : List Char} : (∀ e ∈ c :: digits, e.isDigit) →
      (∀ e ∈ d :: fraction, e.isDigit) →
      Lexeme (c :: digits ++ '.' :: d :: fraction)
        (.token (.number (numberValue (c :: digits) (d :: fraction))))
  | string {body : List Char} : quote ∉ body →
      Lexeme (quote :: body ++ [quote]) (.token (.string (String.ofList body)))
  | keyword (k : Keyword) : Lexeme k.text.toList (.token (.keyword k))
  | identifier {c : Char} {rest : List Char} : c.isAlpha ∨ c = '_' →
      (∀ d ∈ rest, d.isAlphanum ∨ d = '_') → (∀ k : Keyword, k.text.toList ≠ c :: rest) →
      Lexeme (c :: rest) (.token .identifier)

/-- The span that the grammar cuts off the beginning of a source.

* `lexeme`: a text of a class, of all those that the source begins with the longest.
* `unexpected`: one character, where the source begins with no text of a class.
* `unterminated`: the whole source, where it begins with its only quote. -/
inductive Span.Cut (source : List Char) : Span → Prop
  | lexeme {text : List Char} {shape : Shape} : Lexeme text shape → text <+: source →
      (∀ other shape, Lexeme other shape → other <+: source → other.length ≤ text.length) →
      Cut source ⟨text, shape⟩
  | unexpected {c : Char} {rest : List Char} : source = c :: rest → c ≠ quote →
      (∀ other shape, Lexeme other shape → ¬ other <+: source) →
      Cut source ⟨[c], .fault (.unexpected c)⟩
  | unterminated {rest : List Char} : source = quote :: rest → quote ∉ rest →
      (∀ other shape, Lexeme other shape → ¬ other <+: source) →
      Cut source ⟨source, .fault .unterminated⟩

namespace Span

/-! ## Characters -/

theorem isBlank_iff {c : Char} : isBlank c ↔ c ∈ [' ', '\t', '\r', '\n'] := by
  simp [isBlank, or_assoc, or_comm, or_left_comm]

theorem isDigit_eq (c : Char) : isDigit c = c.isDigit := rfl

theorem isLetter_iff {c : Char} : isLetter c ↔ c.isAlpha ∨ c = '_' := by
  have hlower : c.isLower ↔ 'a' ≤ c ∧ c ≤ 'z' :=
    Bool.and_eq_true_iff.trans (and_congr decide_eq_true_iff decide_eq_true_iff)
  have hupper : c.isUpper ↔ 'A' ≤ c ∧ c ≤ 'Z' := decide_eq_true_iff
  have halpha : c.isAlpha ↔ c.isUpper ∨ c.isLower := Bool.or_eq_true_iff
  rw [halpha, hupper, hlower, isLetter]
  simp [or_comm]

theorem isWordChar_of_isLetter {c : Char} (h : isLetter c) : isWordChar c :=
  Bool.or_eq_true_iff.2 (.inl h)

theorem isWordChar_of_isDigit {c : Char} (h : isDigit c) : isWordChar c :=
  Bool.or_eq_true_iff.2 (.inr h)

theorem isWordChar_iff {c : Char} : isWordChar c ↔ c.isAlphanum ∨ c = '_' := by
  rw [isWordChar, Bool.or_eq_true, isLetter_iff, isDigit_eq, Char.isAlphanum, Bool.or_eq_true,
    or_right_comm]

theorem not_isBlank_of_isDigit {c : Char} (h : isDigit c) : isBlank c = false := by
  refine Bool.eq_false_iff.2 fun hblank => ?_
  simp only [isBlank, Bool.or_eq_true, beq_iff_eq] at hblank
  rcases hblank with ((rfl | rfl) | rfl) | rfl <;> exact absurd h (by decide)

theorem not_isBlank_of_isLetter {c : Char} (h : isLetter c) : isBlank c = false := by
  refine Bool.eq_false_iff.2 fun hblank => ?_
  simp only [isBlank, Bool.or_eq_true, beq_iff_eq] at hblank
  rcases hblank with ((rfl | rfl) | rfl) | rfl <;> exact absurd h (by decide)

theorem not_isDigit_of_isLetter {c : Char} (h : isLetter c) : isDigit c = false := by
  refine Bool.eq_false_iff.2 fun hdigit => ?_
  simp only [isLetter, isDigit, Bool.or_eq_true, Bool.and_eq_true, decide_eq_true_eq, beq_iff_eq,
    Char.le_def, UInt32.le_iff_toNat_le] at h hdigit
  have hnine : '9'.val.toNat = 57 := rfl
  rcases h with (⟨h, -⟩ | ⟨h, -⟩) | rfl
  · have ha : 'a'.val.toNat = 97 := rfl
    omega
  · have hA : 'A'.val.toNat = 65 := rfl
    omega
  · exact absurd hdigit (by decide)

/-! ## The first span by its first character -/

variable {c : Char} {rest : List Char}

theorem first_of_isBlank (h : isBlank c) (rest : List Char) :
    first c rest = (⟨[c], .blank⟩, rest) :=
  if_pos h

theorem first_quote (rest : List Char) : first quote rest = quoted rest := rfl

theorem first_of_isDigit (h : isDigit c) (rest : List Char) : first c rest = number c rest := by
  have hquote : c ≠ quote := by
    rintro rfl
    exact absurd h (by decide)
  unfold first
  rw [not_isBlank_of_isDigit h, if_neg Bool.false_ne_true, if_neg hquote, if_pos h]

theorem first_of_isLetter (h : isLetter c) (rest : List Char) : first c rest = word c rest := by
  have hquote : c ≠ quote := by
    rintro rfl
    exact absurd h (by decide)
  unfold first
  rw [not_isBlank_of_isLetter h, if_neg Bool.false_ne_true, if_neg hquote,
    not_isDigit_of_isLetter h, if_neg Bool.false_ne_true, if_pos h]

/-! ## Text of a class, with more after it -/

/-- What the first span of a source looks like where text of a class is followed by more. -/
structure Takes (text : List Char) (shape : Shape) (more : List Char) (span : Span) : Prop where
  begins : text <+: span.text
  sound : ∀ fault, span.shape ≠ .fault fault
  alone : more = [] → span.shape = shape

namespace Takes

theorem blank (text more : List Char) : Takes text .blank more ⟨text, .blank⟩ :=
  ⟨List.prefix_rfl, nofun, fun _ => rfl⟩

theorem token (text : List Char) (kind : Kind) (more : List Char) :
    Takes text (.token kind) more ⟨text, .token kind⟩ :=
  ⟨List.prefix_rfl, nofun, fun _ => rfl⟩

/-- A mark of one character, unless it is the beginning of one of two. -/
theorem single {m : Mark} (h : Mark.ofText? (String.singleton c) = some m) (more : List Char) :
    Takes [c] (.token (.mark m)) more (mark c more).1 := by
  have hsingle : Span.single c = ⟨[c], .token (.mark m)⟩ := by simp [Span.single, h]
  unfold mark
  split
  · rw [hsingle]
    exact .token _ _ _
  · split
    · refine ⟨⟨[_], rfl⟩, fun fault hfault => ?_, fun hnil => ?_⟩
      · cases hfault
      · cases hnil
    · rw [hsingle]
      exact .token _ _ _

/-- Digits, with more digits or a fraction after them. -/
theorem whole {digits : List Char} (h : ∀ d ∈ digits, isDigit d) (more : List Char) :
    Takes (c :: digits) (.token (.number (numberValue (c :: digits) []))) more
      (number c (digits ++ more)).1 := by
  unfold number
  rw [List.takeWhile_append_of_pos h, List.dropWhile_append_of_pos h]
  split
  · next hmore =>
    have hne : more ≠ [] := by
      rintro rfl
      exact nomatch hmore
    split
    · exact ⟨⟨more.takeWhile isDigit ++ _, by simp; rfl⟩, nofun, fun h => absurd h hne⟩
    · exact ⟨⟨more.takeWhile isDigit, rfl⟩, nofun, fun h => absurd h hne⟩
  · refine ⟨⟨more.takeWhile isDigit, rfl⟩, nofun, ?_⟩
    rintro rfl
    rw [List.takeWhile_nil, List.append_nil]

/-- Digits with a fraction, with more digits after it. -/
theorem decimal {d : Char} {digits fraction : List Char} (h : ∀ e ∈ digits, isDigit e)
    (hfraction : ∀ e ∈ d :: fraction, isDigit e) (more : List Char) :
    Takes (c :: digits ++ '.' :: d :: fraction)
      (.token (.number (numberValue (c :: digits) (d :: fraction)))) more
      (number c (digits ++ '.' :: d :: fraction ++ more)).1 := by
  have hd : isDigit d := hfraction d List.mem_cons_self
  have hrest : ∀ e ∈ fraction, isDigit e := fun e he => hfraction e (List.mem_cons_of_mem _ he)
  have hpoint : isDigit '.' = false := by decide
  have hnumber : (number c (digits ++ '.' :: d :: fraction ++ more)).1 =
      ⟨c :: digits ++ '.' :: d :: (fraction ++ more.takeWhile isDigit),
        .token (.number
          (numberValue (c :: digits) (d :: (fraction ++ more.takeWhile isDigit))))⟩ := by
    simp [number, List.takeWhile_append_of_pos h, List.dropWhile_append_of_pos h, hpoint, hd,
      List.takeWhile_append_of_pos hrest]
  rw [hnumber]
  refine ⟨⟨more.takeWhile isDigit, by simp⟩, nofun, ?_⟩
  rintro rfl
  rw [List.takeWhile_nil, List.append_nil]

/-- Letters and digits, with more of them after it. -/
theorem word {text : List Char} (h : ∀ d ∈ text, isWordChar d) (more : List Char) :
    Takes (c :: text) (.token (wordKind (c :: text))) more (word c (text ++ more)).1 := by
  unfold Span.word
  rw [List.takeWhile_append_of_pos h]
  refine ⟨⟨more.takeWhile isWordChar, rfl⟩, nofun, ?_⟩
  rintro rfl
  rw [List.takeWhile_nil, List.append_nil]

theorem comment {body : List Char} (h : '\n' ∉ body) (more : List Char) :
    Takes ('/' :: '/' :: body) .blank more (comment (body ++ more)).1 := by
  have htake : ∀ c ∈ body, (c != '\n') = true := fun c hc => by
    simpa using ne_of_mem_of_not_mem hc h
  unfold Span.comment
  rw [List.takeWhile_append_of_pos htake]
  exact ⟨⟨_, rfl⟩, nofun, fun _ => rfl⟩

theorem string {body : List Char} (h : quote ∉ body) (more : List Char) :
    Takes (quote :: body ++ [quote]) (.token (.string (String.ofList body))) more
      (quoted (body ++ [quote] ++ more)).1 := by
  have htake : ∀ c ∈ body, (c != quote) = true := fun c hc => by
    simpa using ne_of_mem_of_not_mem hc h
  have hquoted : (quoted (body ++ [quote] ++ more)).1 =
      ⟨quote :: body ++ [quote], .token (.string (String.ofList body))⟩ := by
    simp [quoted, List.takeWhile_append_of_pos htake, List.dropWhile_append_of_pos htake]
  rw [hquoted]
  exact .token _ _ _

/-- Marks of one and of two characters. A slash may begin a comment. -/
theorem anyMark (m : Mark) (more : List Char) : ∃ c rest, m.text.toList = c :: rest ∧
    Takes (c :: rest) (.token (.mark m)) more (first c (rest ++ more)).1 := by
  cases m with
  | slash =>
    refine ⟨'/', [], rfl, ?_⟩
    cases more with
    | nil => exact single (m := .slash) rfl []
    | cons d more =>
      by_cases hd : d = '/'
      · subst hd
        exact ⟨⟨'/' :: _, rfl⟩, nofun, nofun⟩
      · have hfirst : first '/' (d :: more) = mark '/' (d :: more) := by
          simp [first, hd, isBlank, isDigit, isLetter, quote]
        rw [List.nil_append, hfirst]
        exact single rfl _
  | bangEqual => exact ⟨'!', ['='], rfl, token _ _ more⟩
  | equalEqual => exact ⟨'=', ['='], rfl, token _ _ more⟩
  | greaterEqual => exact ⟨'>', ['='], rfl, token _ _ more⟩
  | lessEqual => exact ⟨'<', ['='], rfl, token _ _ more⟩
  | _ => exact ⟨_, _, rfl, single rfl more⟩

end Takes

/-- A reserved word is written as names are. -/
theorem word_of_keyword (k : Keyword) : ∃ c rest, k.text.toList = c :: rest ∧ isLetter c ∧
    ∀ d ∈ rest, isWordChar d := by
  cases k <;> exact ⟨_, _, rfl, by decide, List.all_eq_true.1 (by decide)⟩

theorem wordKind_of_keyword (k : Keyword) : wordKind k.text.toList = .keyword k := by
  cases k <;> rfl

theorem wordKind_of_name {text : List Char} (h : ∀ k : Keyword, k.text.toList ≠ text) :
    wordKind text = .identifier := by
  unfold wordKind
  split
  · next k hk => exact absurd (by rw [Keyword.text_of_ofText? hk, String.toList_ofList]) (h k)
  · rfl

end Span

namespace Lexeme

/-- A letter, and letters and digits after it, are a word. -/
theorem word {c : Char} {rest : List Char} (hc : isLetter c)
    (hrest : ∀ d ∈ rest, isWordChar d) :
    Lexeme (c :: rest) (.token (wordKind (c :: rest))) := by
  cases hk : Keyword.ofText? (String.ofList (c :: rest)) with
  | some k =>
    have htext : k.text.toList = c :: rest := by
      rw [Keyword.text_of_ofText? hk, String.toList_ofList]
    rw [← htext, Span.wordKind_of_keyword]
    exact .keyword k
  | none =>
    have hname : ∀ k : Keyword, k.text.toList ≠ c :: rest := by
      intro k htext
      rw [← htext, String.ofList_toList, Keyword.ofText?_text] at hk
      exact nomatch hk
    rw [Span.wordKind_of_name hname]
    exact .identifier (Span.isLetter_iff.1 hc) (fun d hd => Span.isWordChar_iff.1 (hrest d hd))
      hname

/-- Text of a class is the beginning of the first span where it begins a source. -/
theorem takes {text : List Char} {shape : Shape} (h : Lexeme text shape) (more : List Char) :
    ∃ c rest, text = c :: rest ∧ Span.Takes text shape more (Span.first c (rest ++ more)).1 := by
  cases h with
  | @blank c hc =>
    refine ⟨c, [], rfl, ?_⟩
    rw [Span.first_of_isBlank (Span.isBlank_iff.2 hc)]
    exact .blank [c] more
  | @comment body hbody => exact ⟨'/', '/' :: body, rfl, .comment hbody more⟩
  | mark m =>
    obtain ⟨c, rest, htext, htakes⟩ := Span.Takes.anyMark m more
    exact ⟨c, rest, htext, htext ▸ htakes⟩
  | @whole c digits h =>
    refine ⟨c, digits, rfl, ?_⟩
    rw [Span.first_of_isDigit (h c List.mem_cons_self)]
    exact .whole (fun d hd => h d (List.mem_cons_of_mem _ hd)) more
  | @decimal c d digits fraction h hfraction =>
    refine ⟨c, digits ++ '.' :: d :: fraction, rfl, ?_⟩
    rw [Span.first_of_isDigit (h c List.mem_cons_self)]
    exact .decimal (fun d hd => h d (List.mem_cons_of_mem _ hd)) hfraction more
  | @string body hbody => exact ⟨quote, body ++ [quote], rfl, .string hbody more⟩
  | keyword k =>
    obtain ⟨c, rest, htext, hc, hrest⟩ := Span.word_of_keyword k
    refine ⟨c, rest, htext, ?_⟩
    rw [Span.first_of_isLetter hc, ← Span.wordKind_of_keyword k, htext]
    exact .word hrest more
  | @identifier c rest hc hrest hk =>
    refine ⟨c, rest, rfl, ?_⟩
    rw [Span.first_of_isLetter (Span.isLetter_iff.2 hc), ← Span.wordKind_of_name hk]
    exact .word (fun d hd => Span.isWordChar_iff.2 (hrest d hd)) more

theorem ne_nil {text : List Char} {shape : Shape} (h : Lexeme text shape) : text ≠ [] := by
  obtain ⟨c, rest, rfl, -⟩ := h.takes []
  exact List.cons_ne_nil c rest

/-- Text means one thing at most. -/
theorem shape_eq {text : List Char} {shape shape' : Shape} (h : Lexeme text shape)
    (h' : Lexeme text shape') : shape = shape' := by
  obtain ⟨c, rest, rfl, htakes⟩ := h.takes []
  obtain ⟨d, others, htext, htakes'⟩ := h'.takes []
  obtain ⟨rfl, rfl⟩ := List.cons.inj htext
  exact (htakes.alone rfl).symm.trans (htakes'.alone rfl)

end Lexeme

namespace Span

variable {c : Char} {rest : List Char}

/-! ## The first span of a source -/

theorem not_mem_takeWhile (c : Char) (text : List Char) : c ∉ text.takeWhile (· != c) :=
  fun h => by simpa using List.mem_takeWhile_imp h

theorem eq_quote_of_dropWhile {text after : List Char} {close : Char}
    (h : text.dropWhile (· != quote) = close :: after) : close = quote := by
  have hhead := List.head_dropWhile_not (· != quote) (l := text) (by simp [h])
  simpa [h] using hhead

/-- A first span is text of a class, or one of the two faults. -/
inductive Explained (c : Char) (rest : List Char) : Span → Prop
  | lexeme {span : Span} : Lexeme span.text span.shape → Explained c rest span
  | unexpected : c ≠ quote → Explained c rest ⟨[c], .fault (.unexpected c)⟩
  | unterminated : c = quote → quote ∉ rest → Explained c rest ⟨c :: rest, .fault .unterminated⟩

namespace Explained

theorem quoted (rest : List Char) : Explained quote rest (quoted rest).1 := by
  unfold Span.quoted
  split
  · next hdrop =>
    have hall : ∀ c ∈ rest, (c != quote) = true := List.dropWhile_eq_nil_iff.1 hdrop
    have hrest : quote ∉ rest := fun h => by simpa using hall quote h
    rw [List.takeWhile_eq_self_iff.2 hall]
    exact .unterminated rfl hrest
  · next close after hdrop =>
    obtain rfl := eq_quote_of_dropWhile hdrop
    exact .lexeme (.string (not_mem_takeWhile quote rest))

theorem number (h : isDigit c) (rest : List Char) : Explained c rest (number c rest).1 := by
  have hwhole : ∀ e ∈ c :: rest.takeWhile isDigit, e.isDigit := by
    intro e he
    rcases List.mem_cons.1 he with rfl | he
    · exact h
    · exact List.mem_takeWhile_imp he
  unfold Span.number
  split
  · next d after hdrop =>
    split
    · next hd =>
      have hfraction : ∀ e ∈ d :: after.takeWhile isDigit, e.isDigit := by
        intro e he
        rcases List.mem_cons.1 he with rfl | he
        · exact hd
        · exact List.mem_takeWhile_imp he
      exact .lexeme (.decimal hwhole hfraction)
    · exact .lexeme (.whole hwhole)
  · exact .lexeme (.whole hwhole)

theorem word (h : isLetter c) (rest : List Char) : Explained c rest (word c rest).1 :=
  .lexeme (.word h fun _ hd => List.mem_takeWhile_imp hd)

theorem single (h : c ≠ quote) (rest : List Char) : Explained c rest (single c) := by
  unfold Span.single
  split
  · next m hm =>
    have htext : m.text.toList = [c] := by rw [Mark.text_of_ofText? hm, String.toList_singleton]
    exact .lexeme (htext ▸ Lexeme.mark m)
  · exact .unexpected h

theorem mark (h : c ≠ quote) (rest : List Char) : Explained c rest (mark c rest).1 := by
  unfold Span.mark
  split
  · exact single h []
  · next d after =>
    split
    · next m hm =>
      have htext : m.text.toList = [c, d] := by
        rw [Mark.text_of_ofText? hm, String.toList_ofList]
      exact .lexeme (htext ▸ Lexeme.mark m)
    · exact single h _

theorem first (c : Char) (rest : List Char) : Explained c rest (first c rest).1 := by
  unfold Span.first
  split
  · next h => exact .lexeme (.blank (isBlank_iff.1 h))
  · split
    · next h =>
      subst h
      exact quoted rest
    · next hquote =>
      split
      · next h => exact number h rest
      · split
        · next h => exact word h rest
        · split
          · next after =>
            refine .lexeme (.comment fun h => ?_)
            simpa using List.mem_takeWhile_imp h
          · exact mark hquote _

end Explained

/-- What the grammar cuts off the beginning of a source is its first span. -/
theorem cut_first (c : Char) (rest : List Char) : Cut (c :: rest) (first c rest).1 := by
  have htakes : ∀ {other shape}, Lexeme other shape → other <+: c :: rest →
      other <+: (first c rest).1.text ∧ ∀ fault, (first c rest).1.shape ≠ .fault fault := by
    rintro other shape h ⟨more, hmore⟩
    obtain ⟨d, others, rfl, htakes⟩ := h.takes more
    obtain ⟨rfl, rfl⟩ := List.cons.inj hmore
    exact ⟨htakes.begins, htakes.sound⟩
  have hprefix : (first c rest).1.text <+: c :: rest := ⟨_, first_text c rest⟩
  have hcases := Explained.first c rest
  generalize first c rest = cut at htakes hprefix hcases
  obtain ⟨span, after⟩ := cut
  cases hcases with
  | lexeme h => exact .lexeme h hprefix fun other shape ho hp => (htakes ho hp).1.length_le
  | unexpected h => exact .unexpected rfl h fun other shape ho hp => (htakes ho hp).2 _ rfl
  | unterminated hc hrest =>
    subst hc
    exact .unterminated rfl hrest fun other shape ho hp => (htakes ho hp).2 _ rfl

/-- A grammar that cuts in one way only: text means one thing at most, and what is longest in a
class is as long as what else is. -/
theorem Cut.eq {source : List Char} {a b : Span} (ha : Cut source a) (hb : Cut source b) :
    a = b := by
  cases ha with
  | @lexeme text shape h hprefix hlongest =>
    cases hb with
    | @lexeme text' shape' h' hprefix' hlongest' =>
      have hlength : text.length = text'.length :=
        Nat.le_antisymm (hlongest' _ _ h hprefix) (hlongest _ _ h' hprefix')
      obtain rfl : text = text' := List.IsPrefix.eq_of_length
        (List.prefix_of_prefix_length_le hprefix hprefix' hlength.le) hlength
      rw [h.shape_eq h']
    | unexpected _ _ hnone => exact absurd hprefix (hnone _ _ h)
    | unterminated _ _ hnone => exact absurd hprefix (hnone _ _ h)
  | unexpected hsource hquote hnone =>
    cases hb with
    | lexeme h hprefix _ => exact absurd hprefix (hnone _ _ h)
    | unexpected hsource' _ _ =>
      obtain ⟨rfl, -⟩ := List.cons.inj (hsource.symm.trans hsource')
      rfl
    | unterminated hsource' _ _ =>
      exact absurd (List.cons.inj (hsource.symm.trans hsource')).1 hquote
  | unterminated hsource _ hnone =>
    cases hb with
    | lexeme h hprefix _ => exact absurd hprefix (hnone _ _ h)
    | unexpected hsource' hquote _ =>
      exact absurd (List.cons.inj (hsource'.symm.trans hsource)).1 hquote
    | unterminated _ _ _ => rfl

end Span

end LoxLang
