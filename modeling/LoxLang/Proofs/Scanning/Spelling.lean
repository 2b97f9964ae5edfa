import LoxLang.Proofs.Scanning.Items

/-!
# Spelling

Every reserved word is written as such, and no name is written like a reserved word.

1. `spelled_of_scan`: so it is for all tokens of a source.
-/

namespace LoxLang

/-- No reserved word. -/
def IsName (s : String) : Prop :=
  Keyword.ofText? s = none

theorem IsName.ne_text {s : String} (h : IsName s) (k : Keyword) : s ≠ k.text := by
  rintro rfl
  simp [IsName, Keyword.ofText?_text] at h

theorem IsName.ne_this {s : String} (h : IsName s) : s ≠ "this" :=
  h.ne_text .thisWord

theorem IsName.ne_super {s : String} (h : IsName s) : s ≠ "super" :=
  h.ne_text .superWord

namespace Token

/-- The text of a reserved word is that word, the text of an identifier is none, and only the end
has no text. -/
def Spelled (t : Token) : Prop :=
  match t.kind with
  | .keyword k => t.lexeme = k.text
  | .identifier => IsName t.lexeme
  | .eof => t.lexeme = ""
  | _ => True

theorem Spelled.isName {t : Token} (h : t.Spelled) (hk : t.kind = .identifier) :
    IsName t.lexeme := by
  simpa [Spelled, hk] using h

theorem Spelled.lexeme_eq {t : Token} {k : Keyword} (h : t.Spelled) (hk : t.kind = .keyword k) :
    t.lexeme = k.text := by
  simpa [Spelled, hk] using h

end Token

namespace Span

open Lexical

/-- The token that a span is, if it is one, is spelled as its kind says. -/
def Spelled (span : Span) : Prop :=
  ∀ kind line, span.shape = .token kind → Token.Spelled ⟨kind, String.ofList span.text, line⟩

theorem single_spelled (c : Char) : (single c).Spelled := by
  intro kind line h
  unfold single at h
  split at h
  · cases h
    trivial
  · cases h

theorem mark_spelled (c : Char) (rest : List Char) : (mark c rest).1.Spelled := by
  unfold mark
  split
  · exact single_spelled c
  · split
    · intro kind line h
      cases h
      trivial
    · exact single_spelled c

theorem number_spelled (c : Char) (rest : List Char) : (number c rest).1.Spelled := by
  intro kind line h
  unfold number at h
  split at h
  · split at h <;> cases h <;> trivial
  · cases h
    trivial

theorem quoted_spelled (rest : List Char) : (quoted rest).1.Spelled := by
  intro kind line h
  unfold quoted at h
  split at h
  · cases h
  · cases h
    trivial

theorem word_spelled (c : Char) (rest : List Char) : (word c rest).1.Spelled := by
  intro kind line h
  obtain rfl : wordKind (c :: rest.takeWhile isWordChar) = kind := by simpa [word] using h
  show Token.Spelled ⟨wordKind _, String.ofList (c :: rest.takeWhile isWordChar), line⟩
  unfold wordKind
  split
  · next k found => exact (Keyword.text_of_ofText? found).symm
  · next found => exact found

theorem first_spelled (c : Char) (rest : List Char) : (first c rest).1.Spelled := by
  unfold first
  split
  · exact fun _ _ h => nomatch h
  · split
    · exact quoted_spelled rest
    · split
      · exact number_spelled c rest
      · split
        · exact word_spelled c rest
        · split
          · exact fun _ _ h => nomatch h
          · exact mark_spelled _ _

theorem tile_spelled {source : List Char} {span : Span} (h : span ∈ tile source) :
    span.Spelled := by
  fun_induction tile source with
  | case1 => exact absurd h List.not_mem_nil
  | case2 c rest ih =>
    rcases List.mem_cons.1 h with rfl | later
    · exact first_spelled c rest
    · exact ih later

end Span

namespace Item

/-- A token was read from a span. -/
theorem span_of_mem_tokens {line : Nat} {spans : List Span} {t : Token}
    (ht : t ∈ tokens (ofSpans line spans)) :
    ∃ span ∈ spans, span.shape = .token t.kind ∧ t.lexeme = String.ofList span.text := by
  induction spans generalizing line with
  | nil => simp [ofSpans, tokens] at ht
  | cons span spans ih =>
    simp only [ofSpans, tokens, List.filterMap_append, List.mem_append] at ht
    rcases ht with ht | ht
    · unfold ofSpan? at ht
      split at ht
      · simp at ht
      · next kind hshape =>
        obtain rfl : t = _ := by simpa using ht
        exact ⟨span, List.mem_cons_self, hshape, rfl⟩
      · simp at ht
    · obtain ⟨s, hs, hread⟩ := ih ht
      exact ⟨s, List.mem_cons_of_mem _ hs, hread⟩

theorem spelled_of_ofSpans {spans : List Span} (h : ∀ span ∈ spans, span.Spelled) (line : Nat)
    {t : Token} (ht : t ∈ tokens (ofSpans line spans)) : t.Spelled := by
  obtain ⟨span, hspan, hshape, htext⟩ := span_of_mem_tokens ht
  have hspelled := h span hspan t.kind t.line hshape
  rwa [← htext] at hspelled

end Item

/-- The tokens of a source are spelled as their kinds say. -/
theorem spelled_of_scan (source : String) {t : Token} (ht : t ∈ (scan source).1) : t.Spelled := by
  simp only [scan_eq, Item.ofSource, Item.tokens, List.filterMap_append, List.mem_append] at ht
  rcases ht with ht | ht
  · exact Item.spelled_of_ofSpans (fun _ => Span.tile_spelled) 1 ht
  · obtain rfl : t = _ := by simpa [Item.last] using ht
    rfl

end LoxLang
