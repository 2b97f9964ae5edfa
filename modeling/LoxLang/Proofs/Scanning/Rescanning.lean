import LoxLang.Proofs.Layout.Readings
import LoxLang.Proofs.Scanning.LongestMatch
import LoxLang.Proofs.Splitting.Seam

/-!
# Scanning the tokens of a source again

The texts of the tokens of any source, with a space between each and the next, are a source with
just these tokens. For a space closes every token that is not itself one with a space in it, that is
a string; and a string has been closed by its quote.

1. `Lexeme.eq_of_space`: a space ends the text of a token.
2. `Span.tile_spaced`: so texts of tokens with spaces between are cut at the spaces.
3. `rescan`: the tokens of a source, scanned again.
-/

namespace LoxLang

open Lexical (quote)

/-! ## Where a token ends -/

namespace Lexeme

variable {text other : List Char} {shape : Shape} {kind : Kind} {rest : List Char}

/-- Text with a space in it is a space, a comment or a string. -/
theorem of_space_mem (h : Lexeme text shape) (hspace : ' ' ∈ text) :
    text = [' '] ∨ (∃ body, text = '/' :: '/' :: body) ∨
      ∃ body, text = quote :: body ++ [quote] ∧ quote ∉ body := by
  have hdigit : ¬ ' '.isDigit := by decide
  cases h with
  | blank _ => exact .inl (by rw [List.mem_singleton.1 hspace])
  | comment _ => exact .inr (.inl ⟨_, rfl⟩)
  | mark m => exact absurd hspace (by cases m <;> decide)
  | whole h => exact absurd (h _ hspace) hdigit
  | decimal h hfraction =>
    rcases List.mem_append.1 hspace with hspace | hspace
    · exact absurd (h _ hspace) hdigit
    · rcases List.mem_cons.1 hspace with hpoint | hspace
      · exact absurd hpoint (by decide)
      · exact absurd (hfraction _ hspace) hdigit
  | string h => exact .inr (.inr ⟨_, rfl, h⟩)
  | keyword k => exact absurd hspace (by cases k <;> decide)
  | identifier hc hrest _ =>
    rcases List.mem_cons.1 hspace with rfl | hspace
    · exact absurd hc (by decide)
    · exact absurd (hrest _ hspace) (by decide)

/-- A token that begins with a slash is the slash. -/
theorem eq_nil_of_slash (h : Lexeme ('/' :: rest) (.token kind)) : rest = [] := by
  generalize htext : '/' :: rest = text at h
  cases h with
  | mark m => cases m <;> simp_all [Mark.text]
  | whole h => exact absurd (h '/' (htext ▸ List.mem_cons_self)) (by decide)
  | decimal h _ =>
    obtain ⟨rfl, -⟩ := List.cons.inj htext
    exact absurd (h '/' List.mem_cons_self) (by decide)
  | string _ => exact absurd (List.cons.inj htext).1 (by decide)
  | keyword k => cases k <;> simp [Keyword.text] at htext
  | identifier hc _ _ =>
    obtain ⟨rfl, -⟩ := List.cons.inj htext
    exact absurd hc (by decide)

/-- A token that begins with a quote ends with one. -/
theorem quote_mem_of_quote (h : Lexeme (quote :: rest) (.token kind)) : quote ∈ rest := by
  generalize htext : quote :: rest = text at h
  cases h with
  | mark m => cases m <;> simp_all [Mark.text, quote]
  | whole h => exact absurd (h quote (htext ▸ List.mem_cons_self)) (by decide)
  | decimal h _ =>
    obtain ⟨rfl, -⟩ := List.cons.inj htext
    exact absurd (h quote List.mem_cons_self) (by decide)
  | string _ =>
    obtain ⟨-, rfl⟩ := List.cons.inj htext
    exact List.mem_append_right _ (List.mem_singleton_self _)
  | keyword k => cases k <;> simp [Keyword.text, quote] at htext
  | identifier hc _ _ =>
    obtain ⟨rfl, -⟩ := List.cons.inj htext
    exact absurd hc (by decide)

/-- No text of a class goes on behind a token and a space. -/
theorem not_prefix_of_space (h : Lexeme text (.token kind)) (hother : Lexeme other shape) :
    ¬ text ++ [' '] <+: other := by
  rintro ⟨after, rfl⟩
  obtain ⟨c, rest, rfl⟩ := List.exists_cons_of_ne_nil h.ne_nil
  rcases hother.of_space_mem (by simp) with hblank | ⟨body, hbody⟩ | ⟨body, hbody, hquote⟩
  · simp at hblank
  · obtain ⟨rfl, hrest⟩ := List.cons.inj hbody
    rw [h.eq_nil_of_slash] at hrest
    exact absurd (List.cons.inj hrest).1 (by decide)
  · obtain ⟨rfl, hrest⟩ := List.cons.inj hbody
    have hsplit : rest ++ ([' '] ++ after) = body ++ [quote] :=
      (List.append_assoc ..).symm.trans hrest
    rcases List.append_eq_append_iff.1 hsplit with ⟨_, rfl, -⟩ | ⟨inner, -, hlast⟩
    · exact hquote (List.mem_append_left _ h.quote_mem_of_quote)
    · cases inner with
      | nil => exact absurd (List.cons.inj hlast).1 (by decide)
      | cons c inner => simpa using congrArg List.length hlast

/-- A space ends the text of a token: what begins there with the text of a token is that text. -/
theorem eq_of_space (h : Lexeme text (.token kind)) (hother : Lexeme other shape)
    (hbegins : text <+: other) {more : List Char} (hmore : more = [] ∨ ∃ after, more = ' ' :: after)
    (hwithin : other <+: text ++ more) : other = text := by
  obtain ⟨tail, rfl⟩ := hbegins
  rw [List.prefix_append_right_inj] at hwithin
  rcases hmore with rfl | ⟨after, rfl⟩
  · rw [List.prefix_nil.1 hwithin, List.append_nil]
  · cases tail with
    | nil => rw [List.append_nil]
    | cons c tail =>
      obtain rfl := (List.cons_prefix_cons.1 hwithin).1
      exact absurd ⟨tail, by simp⟩ (h.not_prefix_of_space hother)

end Lexeme

namespace Span

/-- The space that stands between two tokens. -/
def space : Span :=
  ⟨[' '], .blank⟩

/-- Is a span a token? -/
def isToken (span : Span) : Bool :=
  match span.shape with
  | .token _ => true
  | _ => false

/-- What a span is as a token on the one line of a flat text. -/
def word? (span : Span) : Option Token :=
  match span.shape with
  | .token kind => some ⟨kind, String.ofList span.text, 0⟩
  | _ => none

/-- A span that the grammar allows as a token. -/
def IsWord (span : Span) : Prop :=
  ∃ kind, span.shape = .token kind ∧ Lexeme span.text (.token kind)

theorem Cut.isWord {source : List Char} {span : Span} (h : Cut source span)
    (htoken : span.isToken) : span.IsWord := by
  cases h with
  | @lexeme text shape h _ _ =>
    cases shape with
    | token kind => exact ⟨kind, rfl, h⟩
    | blank => exact nomatch htoken
    | fault fault => exact nomatch htoken
  | unexpected _ _ _ => exact nomatch htoken
  | unterminated _ _ _ => exact nomatch htoken

theorem isWord_of_mem_tile {source : List Char} {span : Span} (h : span ∈ tile source)
    (htoken : span.isToken) : span.IsWord := by
  obtain ⟨rest, hcut⟩ := (tiling_tile source).cut h
  exact hcut.isWord htoken

namespace IsWord

variable {span : Span} {more : List Char}

/-- A token with a space or nothing behind it is cut off as it is. -/
theorem cut (h : span.IsWord) (hmore : more = [] ∨ ∃ after, more = ' ' :: after) :
    Cut (span.text ++ more) span := by
  obtain ⟨text, shape⟩ := span
  obtain ⟨kind, rfl, h⟩ := h
  refine .lexeme h (List.prefix_append text more) fun other shape hother hwithin => ?_
  rcases Nat.le_total other.length text.length with hle | hle
  · exact hle
  · have hbegins := List.prefix_of_prefix_length_le (List.prefix_append text more) hwithin hle
    exact (congrArg List.length (h.eq_of_space hother hbegins hmore hwithin)).le

theorem tile_append (h : span.IsWord) (hmore : more = [] ∨ ∃ after, more = ' ' :: after) :
    tile (span.text ++ more) = span :: tile more := by
  have htiling := Tiling.cons (h.cut hmore) (tiling_tile more)
  exact (tiling_iff.1 htiling).symm

end IsWord

/-- Texts of tokens with spaces between are cut at the spaces. -/
theorem tile_spaced {spans : List Span} (h : ∀ span ∈ spans, span.IsWord) :
    tile ([' '].intercalate (spans.map text)) = spans.intersperse space := by
  induction spans with
  | nil => rw [List.map_nil, List.intercalate_nil, tile]; rfl
  | cons span spans ih =>
    have hspan := h span List.mem_cons_self
    have hspans := ih fun s hs => h s (List.mem_cons_of_mem _ hs)
    cases spans with
    | nil =>
      have htile : tile (span.text ++ []) = span :: tile [] := hspan.tile_append (.inl rfl)
      rw [List.append_nil, tile] at htile
      simpa using htile
    | cons next spans =>
      generalize hmore : [' '].intercalate ((next :: spans).map text) = more at hspans
      have hspace : tile (' ' :: more) = space :: tile more := by
        rw [tile]
        rfl
      have htext : [' '].intercalate ((span :: next :: spans).map text) =
          span.text ++ ' ' :: more := by
        rw [← hmore, List.map_cons, List.map_cons, List.intercalate_cons_cons, List.append_assoc]
        rfl
      rw [htext, hspan.tile_append (.inr ⟨more, rfl⟩), hspace, hspans, List.intersperse_cons_cons]

end Span

/-! ## Flat texts -/

/-- On one line, the tokens of a source are those of its spans that are tokens. -/
theorem words_flat (source : String) :
    (words source).map (Token.move .flat) = (Span.tile source.toList).filterMap Span.word? := by
  unfold words
  rw [← Item.tokens_map_move, Item.ofSpans_flat, Item.tokens, List.filterMap_filterMap]
  congr 1
  funext span
  obtain ⟨text, shape⟩ := span
  cases shape <;> rfl

theorem filterMap_word?_filter (spans : List Span) :
    (spans.filter Span.isToken).filterMap Span.word? = spans.filterMap Span.word? := by
  rw [List.filterMap_filter]
  congr 1
  funext span
  obtain ⟨text, shape⟩ := span
  cases shape <;> rfl

/-- Spaces are no tokens. -/
theorem filterMap_word?_intersperse (spans : List Span) :
    (spans.intersperse .space).filterMap Span.word? = spans.filterMap Span.word? := by
  induction spans with
  | nil => rfl
  | cons span spans ih =>
    cases spans with
    | nil => rfl
    | cons next spans =>
      rw [List.intersperse_cons_cons, List.filterMap_cons, List.filterMap_cons_none rfl, ih]
      rfl

theorem text_word? (spans : List Span) :
    ((spans.filterMap Span.word?).map Token.lexeme).map String.toList =
      (spans.filter Span.isToken).map Span.text := by
  induction spans with
  | nil => rfl
  | cons span spans ih =>
    obtain ⟨text, shape⟩ := span
    cases shape with
    | token kind =>
      rw [List.filter_cons_of_pos rfl, List.map_cons, ← ih]
      exact congrArg (· :: _) String.toList_ofList
    | blank => exact ih
    | fault fault => exact ih

theorem Item.errors_intersperse {spans : List Span} (h : ∀ span ∈ spans, span.isToken)
    (line : Nat) : errors (ofSpans line (spans.intersperse .space)) = [] := by
  induction spans generalizing line with
  | nil => rfl
  | cons span spans ih =>
    obtain ⟨text, shape⟩ := span
    have htoken := h _ List.mem_cons_self
    have hspans := ih fun s hs => h s (List.mem_cons_of_mem _ hs)
    cases shape with
    | blank => exact nomatch htoken
    | fault fault => exact nomatch htoken
    | token kind =>
      cases spans with
      | nil => rfl
      | cons next spans => exact hspans _

theorem lexemes_words (source : String) :
    ((words source).map Token.lexeme).map String.toList =
      ((Span.tile source.toList).filter Span.isToken).map Span.text := by
  rw [← text_word?, ← words_flat, List.map_map (f := Token.move .flat)]
  rfl

/-- The texts of the tokens of a source, with a space between each and the next. -/
def respaced (source : String) : String :=
  " ".intercalate ((words source).map Token.lexeme)

theorem tile_respaced (source : String) :
    Span.tile (respaced source).toList =
      ((Span.tile source.toList).filter Span.isToken).intersperse .space := by
  rw [respaced, String.toList_intercalate, lexemes_words]
  refine Span.tile_spaced fun span hspan => ?_
  obtain ⟨hmem, htoken⟩ := List.mem_filter.1 hspan
  exact Span.isWord_of_mem_tile hmem htoken

theorem words_respaced (source : String) :
    List.Forall₂ Token.SameText (words source) (words (respaced source)) := by
  rw [← Token.map_move_flat_eq_iff, words_flat, words_flat, tile_respaced,
    filterMap_word?_intersperse, filterMap_word?_filter]

theorem errors_respaced (source : String) : (scan (respaced source)).2 = [] := by
  rw [scan_snd, tile_respaced]
  refine Item.errors_intersperse (fun span hspan => ?_) 1
  exact (List.mem_filter.1 hspan).2

/-- Whatever the source, and whatever errors are in it: the texts of its tokens, joined by single
spaces, are a source without an error that has the same tokens, on other lines, and an end. -/
theorem rescan (source : String) :
    ∃ tokens line, (scan source).1 = tokens ++ [⟨.eof, "", line⟩] ∧
      (∀ t ∈ tokens, t.kind ≠ .eof) ∧
      ∃ tokens' line', scan (" ".intercalate (tokens.map Token.lexeme)) =
          (tokens' ++ [⟨.eof, "", line'⟩], []) ∧
        List.Forall₂ Token.SameText tokens tokens' := by
  have hagain : scan (respaced source) = (_, _) :=
    Prod.ext (scan_fst (respaced source)) (errors_respaced source)
  exact ⟨words source, _, scan_fst source, fun t ht => kind_ne_eof_of_words ht,
    words (respaced source), _, hagain, words_respaced source⟩

end LoxLang
