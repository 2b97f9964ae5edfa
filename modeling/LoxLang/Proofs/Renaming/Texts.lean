import LoxLang.Proofs.Renaming.Tokens
import LoxLang.Proofs.Scanning.LongestMatch
import LoxLang.Proofs.Splitting.Readings

/-!
# Texts of renamed programs

A name ends where no letter and no digit follows, and what comes before a name ends there whatever
the name is. So a text in which some names are spelled anew is cut in the same places.

1. `Span.Cut.respell`: what is cut off before other names.
2. `Span.Tiling.respell`: the spans of such a text.
3. `Reading.ofSource_respell`: what is read of it.
-/

namespace LoxLang

open Lexical (quote isLetter isDigit isWordChar)

/-- The text is a name. -/
def IsIdentifier (s : String) : Prop :=
  Lexeme s.toList (.token .identifier)

theorem IsIdentifier.isName {s : String} (h : IsIdentifier s) : IsName s := by
  unfold IsName
  cases hk : Keyword.ofText? s with
  | none => rfl
  | some k =>
    have hword := Lexeme.keyword k
    rw [Keyword.text_of_ofText? hk] at hword
    exact nomatch h.shape_eq hword

theorem Mark.not_isLetter (m : Mark) : ∀ c ∈ m.text.toList, ¬isLetter c := by
  have hall : m.text.toList.all fun c => !isLetter c := by cases m <;> decide
  simpa using hall

namespace Lexeme

variable {c : Char} {rest : List Char} {shape : Shape}

/-- Text of a class is all of its first span. -/
theorem text_first (h : Lexeme (c :: rest) shape) :
    (Span.first c rest).1.text = c :: rest ∧
      ∀ fault, (Span.first c rest).1.shape ≠ .fault fault := by
  obtain ⟨d, others, htext, htakes⟩ := h.takes []
  obtain ⟨rfl, rfl⟩ := List.cons.inj htext
  rw [List.append_nil] at htakes
  have hbegins : (Span.first c rest).1.text <+: c :: rest := ⟨_, Span.first_text c rest⟩
  exact ⟨hbegins.eq_of_length_le htakes.begins.length_le, htakes.sound⟩

theorem isWordChar (h : Lexeme (c :: rest) shape) (hc : isLetter c) : ∀ d ∈ rest, isWordChar d := by
  have htext := h.text_first.1
  rw [Span.first_of_isLetter hc] at htext
  have htake : rest.takeWhile Lexical.isWordChar = rest := (List.cons.inj htext).2
  exact fun d hd => List.mem_takeWhile_imp (htake.symm ▸ hd)

theorem closed (h : Lexeme (quote :: rest) shape) :
    ∃ body, quote ∉ body ∧ rest = body ++ [quote] := by
  obtain ⟨htext, hsound⟩ := h.text_first
  rw [Span.first_quote, Span.quoted] at htext hsound
  cases hdrop : rest.dropWhile (· != quote) with
  | nil =>
    rw [hdrop] at hsound
    exact absurd rfl (hsound _)
  | cons close after =>
    obtain rfl := Span.eq_quote_of_dropWhile hdrop
    rw [hdrop] at htext
    exact ⟨_, Span.not_mem_takeWhile quote rest, (List.cons.inj htext).2.symm⟩

/-- Where text of a class goes on with a letter, it could go on with any other one. -/
theorem exchange {text before after : List Char} {c c' : Char} {shape' : Shape}
    (htext : Lexeme text shape) (hbefore : text <+: before)
    (h : Lexeme (before ++ c' :: after) shape') (hc' : isLetter c') (hc : isLetter c) :
    ∃ shape'', Lexeme (before ++ [c]) shape'' := by
  obtain ⟨d, t, rfl⟩ := List.exists_cons_of_ne_nil htext.ne_nil
  obtain ⟨more, rfl⟩ := hbefore
  -- A word goes on with any letter; of all other texts only a comment goes on with one.
  by_cases hd : isLetter d
  · have hword := h.isWordChar hd
    refine ⟨_, .word hd fun e he => ?_⟩
    simp only [List.append_eq, List.mem_append, List.mem_singleton] at he hword
    rcases he with (he | he) | rfl
    · exact hword e (.inl (.inl he))
    · exact hword e (.inl (.inr he))
    · exact Span.isWordChar_of_isLetter hc
  have hmem : c' ∈ d :: t ++ more ++ c' :: after :=
    List.mem_append_right _ List.mem_cons_self
  have hdigit := Span.not_isDigit_of_isLetter hc'
  generalize hwhole : d :: t ++ more ++ c' :: after = whole at h hmem
  cases h with
  | blank => simp at hwhole
  | @comment body hbody =>
    rw [List.cons_append, List.cons_append] at hwhole ⊢
    obtain ⟨rfl, htail⟩ := List.cons.inj hwhole
    cases hothers : t ++ more with
    | nil =>
      rw [hothers] at htail
      rw [(List.cons.inj htail).1] at hc'
      exact absurd hc' (by decide)
    | cons e others =>
      rw [hothers] at htail
      obtain ⟨rfl, rfl⟩ := List.cons.inj htail
      have hsound : '\n' ∉ others ++ [c] := by
        intro hm
        rcases List.mem_append.1 hm with hm | hm
        · exact hbody (List.mem_append_left _ hm)
        · rw [← List.mem_singleton.1 hm] at hc
          exact absurd hc (by decide)
      exact ⟨_, .comment hsound⟩
  | mark m => exact absurd hc' (m.not_isLetter c' hmem)
  | whole h => exact absurd (h c' hmem) (by simpa [Span.isDigit_eq] using hdigit)
  | decimal h hfraction =>
    rcases List.mem_append.1 hmem with hm | hm
    · exact absurd (h c' hm) (by simpa [Span.isDigit_eq] using hdigit)
    · rcases List.mem_cons.1 hm with rfl | hm
      · exact absurd hc' (by decide)
      · exact absurd (hfraction c' hm) (by simpa [Span.isDigit_eq] using hdigit)
  | @string body hbody =>
    obtain ⟨rfl, htail⟩ := List.cons.inj hwhole
    obtain ⟨inner, -, rfl⟩ := htext.closed
    have hsame : inner ++ [quote] ++ more ++ c' :: after = body ++ [quote] := htail
    have hdrop := congrArg List.dropLast hsame
    rw [List.dropLast_append_of_ne_nil (List.cons_ne_nil _ _), List.dropLast_concat] at hdrop
    exact absurd (hdrop ▸ by simp) hbody
  | keyword k =>
    obtain ⟨e, others, htext', he, -⟩ := Span.word_of_keyword k
    rw [htext'] at hwhole
    exact absurd ((List.cons.inj hwhole).1 ▸ he) hd
  | identifier hfirst =>
    exact absurd ((List.cons.inj hwhole).1 ▸ Span.isLetter_iff.2 hfirst) hd

end Lexeme

namespace Span

variable {x y : String}

/-- Two texts that are the same up to two letters, or altogether. -/
inductive Resembles : List Char → List Char → Prop
  | nil : Resembles [] []
  | letter {c c' : Char} (rest rest' : List Char) : isLetter c → isLetter c' →
      Resembles (c :: rest) (c' :: rest')
  | cons (c : Char) {rest rest' : List Char} : Resembles rest rest' →
      Resembles (c :: rest) (c :: rest')

namespace Resembles

variable {rest rest' : List Char}

theorem append (text : List Char) (h : Resembles rest rest') :
    Resembles (text ++ rest) (text ++ rest') := by
  induction text with
  | nil => exact h
  | cons c text ih => exact .cons c ih

/-- What begins one text begins the other too, or it has a letter in it where the other has one. -/
theorem begins (h : Resembles rest rest') {text : List Char} (htext : text <+: rest') :
    text <+: rest ∨ ∃ before c c' after, text = before ++ c' :: after ∧ before ++ [c] <+: rest ∧
      isLetter c' ∧ isLetter c := by
  induction h generalizing text with
  | nil => exact .inl htext
  | @letter c c' rest rest' hc hc' =>
    rcases List.prefix_cons_iff.1 htext with rfl | ⟨after, rfl, -⟩
    · exact .inl (List.nil_prefix)
    · exact .inr ⟨[], c, c', after, rfl, ⟨rest, rfl⟩, hc', hc⟩
  | @cons d rest rest' _ ih =>
    rcases List.prefix_cons_iff.1 htext with rfl | ⟨after, rfl, hafter⟩
    · exact .inl (List.nil_prefix)
    · rcases ih hafter with hsame | ⟨before, c, c', after, rfl, hbefore, hc', hc⟩
      · exact .inl (List.cons_prefix_cons.2 ⟨rfl, hsame⟩)
      · exact .inr ⟨d :: before, c, c', after, rfl, List.cons_prefix_cons.2 ⟨rfl, hbefore⟩, hc', hc⟩

/-- If a word goes on in one text, then it does in the other. -/
theorem isWordChar {c' : Char} (h : Resembles rest (c' :: rest')) (hc' : Lexical.isWordChar c') :
    ∃ c others, rest = c :: others ∧ Lexical.isWordChar c := by
  cases h with
  | letter others _ hc _ => exact ⟨_, others, rfl, isWordChar_of_isLetter hc⟩
  | cons _ _ => exact ⟨c', _, rfl, hc'⟩

end Resembles

/-- A span, and the same span or, if that is the name `x`, the name `y` in its place. -/
inductive Respells (x y : String) : Span → Span → Prop
  | same (span : Span) : Respells x y span span
  | renamed : Respells x y ⟨x.toList, .token .identifier⟩ ⟨y.toList, .token .identifier⟩

theorem letter_of_isIdentifier {s : String} (h : IsIdentifier s) :
    ∃ c rest, s.toList = c :: rest ∧ isLetter c ∧ ∀ d ∈ rest, isWordChar d := by
  unfold IsIdentifier at h
  generalize s.toList = text at h
  cases h with
  | identifier hc hrest _ =>
    exact ⟨_, _, rfl, isLetter_iff.2 hc, fun d hd => isWordChar_iff.2 (hrest d hd)⟩

theorem Respells.resembles {spans spans' : List Span} (hx : IsIdentifier x) (hy : IsIdentifier y)
    (h : List.Forall₂ (Respells x y) spans spans') :
    Resembles (spans.flatMap text) (spans'.flatMap text) := by
  induction h with
  | nil => exact .nil
  | cons hspan _ ih =>
    cases hspan with
    | same => exact ih.append _
    | renamed =>
      obtain ⟨c, rest, hc, hletter, -⟩ := letter_of_isIdentifier hx
      obtain ⟨c', rest', hc', hletter', -⟩ := letter_of_isIdentifier hy
      simp only [List.flatMap_cons, hc, hc', List.cons_append]
      exact .letter _ _ hletter hletter'

/-- No text of a class that begins a source is longer. -/
def Longest (text source : List Char) : Prop :=
  ∀ other shape, Lexeme other shape → other <+: source → other.length ≤ text.length

theorem Longest.same {text rest rest' : List Char} {shape : Shape} (htext : Lexeme text shape)
    (h : Longest text (text ++ rest)) (hrest : Resembles rest rest') :
    Longest text (text ++ rest') := by
  intro other shape' hother hp
  by_contra hlt
  obtain ⟨more, rfl⟩ := List.prefix_of_prefix_length_le (List.prefix_append text rest') hp
    (Nat.le_of_not_le hlt)
  -- What is longer stands in the other source too, or with another letter at its end.
  rcases hrest.begins ((List.prefix_append_right_inj text).1 hp) with
    hmore | ⟨before, c, c', after, rfl, hbefore, hc', hc⟩
  · exact hlt (h _ _ hother ((List.prefix_append_right_inj text).2 hmore))
  · rw [← List.append_assoc] at hother
    obtain ⟨shape'', hlonger⟩ := htext.exchange (List.prefix_append text before) hother hc' hc
    rw [List.append_assoc] at hlonger
    have hle := h _ _ hlonger ((List.prefix_append_right_inj text).2 hbefore)
    simp only [List.length_append, List.length_singleton] at hle
    omega

/-- A word that went on behind the new name would have gone on behind the old one. -/
theorem Longest.renamed {rest rest' : List Char} (hx : IsIdentifier x) (hy : IsIdentifier y)
    (h : Longest x.toList (x.toList ++ rest)) (hrest : Resembles rest rest') :
    Longest y.toList (y.toList ++ rest') := by
  intro other shape' hother hp
  by_contra hlt
  obtain ⟨more, rfl⟩ := List.prefix_of_prefix_length_le (List.prefix_append y.toList rest') hp
    (Nat.le_of_not_le hlt)
  obtain ⟨d', after, rfl⟩ : ∃ d' after, more = d' :: after :=
    List.exists_cons_of_ne_nil fun he => hlt (by simp [he])
  obtain ⟨after', rfl⟩ := (List.prefix_append_right_inj y.toList).1 hp
  obtain ⟨c', others', hy', hc', -⟩ := letter_of_isIdentifier hy
  rw [hy'] at hother
  have hd' := hother.isWordChar hc' d' (List.mem_append_right _ List.mem_cons_self)
  obtain ⟨d, others, rfl, hd⟩ := hrest.isWordChar hd'
  obtain ⟨c, text, hx', hc, htext⟩ := letter_of_isIdentifier hx
  have hlonger : ∀ e ∈ text ++ [d], isWordChar e := by
    simpa [or_imp, forall_and] using ⟨htext, hd⟩
  have hle := h _ _ (.word hc hlonger) ⟨others, by simp [hx']⟩
  simp only [hx', List.length_cons, List.length_append, List.length_nil] at hle
  omega

/-- What is cut off before other names, or is another name. -/
theorem Cut.respell {span span' : Span} {rest rest' : List Char} (hx : IsIdentifier x)
    (hy : IsIdentifier y) (h : Cut (span.text ++ rest) span)
    (hfault : ∀ fault, span.shape ≠ .fault fault) (hspan : span.Respells x y span')
    (hrest : Resembles rest rest') : Cut (span'.text ++ rest') span' := by
  generalize hsource : span.text ++ rest = source at h
  cases h with
  | unexpected => exact absurd rfl (hfault _)
  | unterminated => exact absurd rfl (hfault _)
  | lexeme htext _ hlongest =>
    subst hsource
    cases hspan with
    | same => exact .lexeme htext (List.prefix_append _ _) (Longest.same htext hlongest hrest)
    | renamed =>
      exact .lexeme hy (List.prefix_append _ _) (Longest.renamed hx hy hlongest hrest)

theorem Tiling.flatMap_text {source : List Char} {spans : List Span} (h : Tiling source spans) :
    spans.flatMap text = source := by
  rw [tiling_iff.1 h, join_tile]

/-- The spans of a text in which some names are spelled anew. -/
theorem Tiling.respell {source : List Char} {spans spans' : List Span} (hx : IsIdentifier x)
    (hy : IsIdentifier y) (h : Tiling source spans)
    (hfault : ∀ span ∈ spans, ∀ fault, span.shape ≠ .fault fault)
    (hspans : List.Forall₂ (Respells x y) spans spans') : Tiling (spans'.flatMap text) spans' := by
  induction h generalizing spans' with
  | nil =>
    cases hspans
    exact .nil
  | cons hcut hrest ih =>
    obtain ⟨hfault, hfaults⟩ := List.forall_mem_cons.1 hfault
    cases hspans with
    | cons hspan hspans =>
      have hresembles := Respells.resembles hx hy hspans
      rw [hrest.flatMap_text] at hresembles
      exact .cons (hcut.respell hx hy hfault hspan hresembles) (ih hfaults hspans)

theorem Cut.isLexeme {source : List Char} {span : Span} (h : Cut source span)
    (hfault : ∀ fault, span.shape ≠ .fault fault) : Lexeme span.text span.shape := by
  cases h with
  | lexeme h => exact h
  | unexpected => exact absurd rfl (hfault _)
  | unterminated => exact absurd rfl (hfault _)

/-- No line ends in a name. -/
theorem Respells.newlines_eq {span span' : Span} (hx : IsIdentifier x) (hy : IsIdentifier y)
    (h : span.Respells x y span') : span'.newlines = span.newlines := by
  have hname {s : String} (hs : IsIdentifier s) : s.toList.count '\n' = 0 := by
    obtain ⟨c, rest, hc, hletter, hword⟩ := letter_of_isIdentifier hs
    rw [hc, List.count_eq_zero]
    intro hm
    have hend : isWordChar '\n' := by
      rcases List.mem_cons.1 hm with rfl | hm
      · exact isWordChar_of_isLetter hletter
      · exact hword _ hm
    exact absurd hend (by decide)
  cases h with
  | same => rfl
  | renamed => exact (hname hy).trans (hname hx).symm

end Span

namespace Item

variable {x y : String} {line : Nat} {spans : List Span}

theorem ofSpans_blank {span : Span} (h : span.shape = .blank) :
    ofSpans line (span :: spans) = ofSpans (line + span.newlines) spans := by
  simp [ofSpans, ofSpan?, h]

theorem ofSpans_token {span : Span} {kind : Kind} (h : span.shape = .token kind) :
    ofSpans line (span :: spans) =
      token ⟨kind, String.ofList span.text, line + span.newlines⟩ ::
        ofSpans (line + span.newlines) spans := by
  simp [ofSpans, ofSpan?, h]

/-- Tokens in which some names are spelled anew come from spans in which they are. -/
theorem respell (hx : IsIdentifier x) (hy : IsIdentifier y)
    (hfault : ∀ span ∈ spans, ∀ fault, span.shape ≠ .fault fault)
    (hname : ∀ span ∈ spans, span.text = x.toList → span.shape = .token .identifier)
    {ts' : List Token} (h : List.Forall₂ (Token.Respells x y) (tokens (ofSpans line spans)) ts') :
    ∃ spans', List.Forall₂ (Span.Respells x y) spans spans' ∧ tokens (ofSpans line spans') = ts' ∧
      errors (ofSpans line spans') = [] := by
  induction spans generalizing line ts' with
  | nil =>
    cases h
    exact ⟨[], .nil, rfl, rfl⟩
  | cons span spans ih =>
    obtain ⟨hfault, hfaults⟩ := List.forall_mem_cons.1 hfault
    obtain ⟨hname, hnames⟩ := List.forall_mem_cons.1 hname
    cases hshape : span.shape with
    | fault fault => exact absurd hshape (hfault fault)
    | blank =>
      rw [ofSpans_blank hshape] at h
      obtain ⟨spans', hspans, hread⟩ := ih hfaults hnames h
      refine ⟨span :: spans', .cons (.same span) hspans, ?_⟩
      rwa [ofSpans_blank hshape]
    | token kind =>
      rw [ofSpans_token hshape] at h
      obtain ⟨t', ts', ht, hts, rfl⟩ := List.forall₂_cons_left_iff.1 h
      obtain ⟨spans', hspans, rfl, herrors⟩ := ih hfaults hnames hts
      cases ht with
      | same =>
        refine ⟨span :: spans', .cons (.same span) hspans, ?_⟩
        rw [ofSpans_token hshape]
        exact ⟨rfl, herrors⟩
      | renamed hlexeme =>
        have htext : span.text = x.toList := by rw [← hlexeme, String.toList_ofList]
        obtain rfl : span = ⟨x.toList, .token .identifier⟩ := by
          rw [← htext, ← hname htext]
        obtain rfl : kind = .identifier := (Shape.token.inj hshape).symm
        have hlines := Span.Respells.newlines_eq hx hy .renamed
        refine ⟨⟨y.toList, .token .identifier⟩ :: spans', .cons .renamed hspans, ?_⟩
        rw [ofSpans_token rfl, hlines, String.ofList_toList]
        exact ⟨rfl, herrors⟩

end Item

/-! ## Sources -/

section

variable {source : String}

/-- What stands in a source without lexical errors is text of a class. -/
theorem isLexeme_of_tile (hscan : (scan source).2 = []) :
    ∀ span ∈ Span.tile source.toList, Lexeme span.text span.shape := by
  intro span hspan
  rw [scan_snd] at hscan
  obtain ⟨rest, hcut⟩ := (Span.tiling_tile source.toList).cut hspan
  exact hcut.isLexeme fun fault => Item.shape_ne_fault hscan fault span hspan

theorem isIdentifier_of_scan (hscan : (scan source).2 = []) {t : Token} (ht : t ∈ (scan source).1)
    (hk : t.kind = .identifier) : IsIdentifier t.lexeme := by
  rw [scan_fst] at ht
  rcases List.mem_append.1 ht with ht | ht
  · obtain ⟨span, hspan, hshape, htext⟩ := Item.span_of_mem_tokens ht
    have hlexeme := isLexeme_of_tile hscan span hspan
    rw [hshape, hk] at hlexeme
    rw [IsIdentifier, htext, String.toList_ofList]
    exact hlexeme
  · obtain rfl := List.mem_singleton.1 ht
    exact nomatch hk

/-- A tree in which some names are spelled anew is read of a source in which they are. -/
theorem Reading.ofSource_respell {x y : String} {first : Nat} {statements' : List Stmt}
    (h : (ofSource source first).errors = []) (hx : IsIdentifier x) (hy : IsIdentifier y)
    (hs : Stmt.AllRespells x y (ofSource source first).statements statements') :
    ∃ source' : String, List.Forall₂ (Span.Respells x y) (Span.tile source.toList)
        (Span.tile source'.toList) ∧
      ofSource source' first = ⟨statements', [], (ofSource source first).nextId⟩ := by
  obtain ⟨hscan, hderives⟩ := declarations_of_accepted h
  obtain ⟨ts', hts, hderives'⟩ := hderives.respell hs
  have hfault : ∀ span ∈ Span.tile source.toList, ∀ fault, span.shape ≠ .fault fault :=
    fun span hspan fault => Item.shape_ne_fault (scan_snd source ▸ hscan) fault span hspan
  have hname : ∀ span ∈ Span.tile source.toList, span.text = x.toList →
      span.shape = .token .identifier := by
    intro span hspan htext
    have hlexeme := isLexeme_of_tile hscan span hspan
    rw [htext] at hlexeme
    exact hlexeme.shape_eq hx
  obtain ⟨spans', hspans, htokens, herrors⟩ := Item.respell hx hy hfault hname hts
  have htile : Span.tile (String.ofList (spans'.flatMap Span.text)).toList = spans' := by
    rw [String.toList_ofList]
    exact (Span.tiling_iff.1
      ((Span.tiling_tile source.toList).respell hx hy hfault hspans)).symm
  refine ⟨String.ofList (spans'.flatMap Span.text), htile.symm ▸ hspans, ofSource_eq ?_ ?_⟩
  · rw [scan_snd, htile, herrors]
  · rw [words, htile, htokens]
    exact hderives'

end

end LoxLang
