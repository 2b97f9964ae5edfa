import LoxLang.Proofs.Scanning.Spelling
import LoxLang.Proofs.Splitting.Moved

/-!
# The seam between two sources

A line end closes every span but an open string. So a source, a line end and another source are cut
into the spans of both, and the tokens of the second are its own, moved down.

1. `Span.tile_append`: the spans of two sources.
2. `words_append`: their tokens.
-/

namespace LoxLang

/-- How many line ends a source has. -/
def lineEnds (source : String) : Nat :=
  source.toList.count '\n'

/-- The source below so many empty lines. -/
def lowered (lines : Nat) (source : String) : String :=
  String.ofList (List.replicate lines '\n') ++ source

section

variable {p : Char → Bool} {more : List Char}

theorem takeWhile_append_newline (hp : p '\n' = false) (cs : List Char) :
    (cs ++ '\n' :: more).takeWhile p = cs.takeWhile p := by
  induction cs with
  | nil => simp [hp]
  | cons c cs ih => cases hc : p c <;> simp [hc, ih]

theorem dropWhile_append_newline (hp : p '\n' = false) (cs : List Char) :
    (cs ++ '\n' :: more).dropWhile p = cs.dropWhile p ++ '\n' :: more := by
  induction cs with
  | nil => simp [hp]
  | cons c cs ih => cases hc : p c <;> simp [hc, ih]

end

namespace Span

open Lexical

/-- A line end is a blank. -/
def lineEnd : Span :=
  ⟨['\n'], .blank⟩

variable (more : List Char)

theorem comment_append (rest : List Char) :
    comment (rest ++ '\n' :: more) = ((comment rest).1, (comment rest).2 ++ '\n' :: more) := by
  simp [comment, takeWhile_append_newline, dropWhile_append_newline]

/-- A string that is closed ends before the line end. -/
theorem quoted_append {rest : List Char} (h : (quoted rest).1.shape ≠ .fault .unterminated) :
    quoted (rest ++ '\n' :: more) = ((quoted rest).1, (quoted rest).2 ++ '\n' :: more) := by
  unfold quoted at h ⊢
  cases hclose : rest.dropWhile (· != quote) with
  | nil => simp [hclose] at h
  | cons close after =>
    have hdrop : (rest ++ '\n' :: more).dropWhile (· != quote) =
        close :: after ++ '\n' :: more := by
      rw [List.dropWhile_append, hclose]
      rfl
    have htake : (rest ++ '\n' :: more).takeWhile (· != quote) = rest.takeWhile (· != quote) := by
      have hlength := congrArg List.length (List.takeWhile_append_dropWhile (p := (· != quote))
        (l := rest))
      rw [List.takeWhile_append, if_neg]
      simp [hclose] at hlength
      omega
    simp [hdrop, htake]

theorem number_append (c : Char) (rest : List Char) :
    number c (rest ++ '\n' :: more) = ((number c rest).1, (number c rest).2 ++ '\n' :: more) := by
  have hdigit : isDigit '\n' = false := rfl
  unfold number
  rw [takeWhile_append_newline hdigit, dropWhile_append_newline hdigit]
  cases rest.dropWhile isDigit with
  | nil => simp
  | cons point after =>
    by_cases hpoint : point = '.'
    · subst hpoint
      cases after with
      | nil => simp [hdigit]
      | cons d after =>
        by_cases hd : isDigit d
        · simp [hd, takeWhile_append_newline hdigit, dropWhile_append_newline hdigit]
        · simp [hd]
    · simp [hpoint]

theorem word_append (c : Char) (rest : List Char) :
    word c (rest ++ '\n' :: more) = ((word c rest).1, (word c rest).2 ++ '\n' :: more) := by
  have hword : isWordChar '\n' = false := rfl
  simp [word, takeWhile_append_newline hword, dropWhile_append_newline hword]

/-- No mark has a line end in it. -/
theorem mark?_newline (c : Char) : Mark.ofText? (String.ofList [c, '\n']) = none := by
  cases h : Mark.ofText? (String.ofList [c, '\n']) with
  | none => rfl
  | some m =>
    have hlast := congrArg (fun s => s.toList.getLast?) (Mark.text_of_ofText? h)
    cases m <;> simp [Mark.text] at hlast

theorem mark_append (c : Char) (rest : List Char) :
    mark c (rest ++ '\n' :: more) = ((mark c rest).1, (mark c rest).2 ++ '\n' :: more) := by
  unfold mark
  cases rest with
  | nil => simp only [List.nil_append, mark?_newline]
  | cons d after =>
    simp only [List.cons_append]
    split <;> rfl

theorem first_append {c : Char} {rest : List Char}
    (h : (first c rest).1.shape ≠ .fault .unterminated) :
    first c (rest ++ '\n' :: more) = ((first c rest).1, (first c rest).2 ++ '\n' :: more) := by
  unfold first at h ⊢
  by_cases hblank : isBlank c
  · simp [hblank]
  by_cases hquote : c = quote
  · simp only [hblank, if_neg, if_pos hquote, Bool.false_eq_true, not_false_eq_true] at h ⊢
    exact quoted_append more h
  by_cases hdigit : isDigit c
  · simpa [hblank, hquote, hdigit] using number_append more c rest
  by_cases hletter : isLetter c
  · simpa [hblank, hquote, hdigit, hletter] using word_append more c rest
  -- What is left is a comment, if two slashes stand here, or else a mark.
  simp only [hblank, hquote, hdigit, hletter, if_false, Bool.false_eq_true]
  split
  · next after hrest =>
    cases rest with
    | nil => simp at hrest
    | cons next rest =>
      injection hrest with hnext hafter
      subst hnext hafter
      exact comment_append more rest
  · next hother =>
    split
    · next after => exact (hother (after ++ '\n' :: more) rfl rfl).elim
    · exact mark_append more _ rest

/-- Two sources with a line end between them are cut into the spans of both. -/
theorem tile_append {source : List Char}
    (h : ∀ span ∈ tile source, span.shape ≠ .fault .unterminated) :
    tile (source ++ '\n' :: more) = tile source ++ lineEnd :: tile more := by
  -- Span by span: each but the last ends before the seam, and the last one at it.
  fun_induction tile source with
  | case1 =>
    rw [List.nil_append, tile]
    rfl
  | case2 c rest ih =>
    have hfirst := first_append more (h _ List.mem_cons_self)
    rw [List.cons_append, tile, hfirst, ih fun span hm => h span (List.mem_cons_of_mem _ hm)]
    rfl

/-- Empty lines are blanks. -/
theorem tile_replicate (lines : Nat) (source : List Char) :
    tile (List.replicate lines '\n' ++ source) =
      List.replicate lines lineEnd ++ tile source := by
  induction lines with
  | zero => rfl
  | succ lines ih =>
    rw [List.replicate_succ, List.cons_append, tile]
    exact congrArg (List.cons _) ih

theorem lastLine_eq (line : Nat) (spans : List Span) :
    Item.lastLine line spans = line + (spans.flatMap text).count '\n' := by
  induction spans generalizing line with
  | nil => rfl
  | cons span spans ih =>
    rw [List.flatMap_cons, List.count_append, ← Nat.add_assoc]
    exact ih _

/-- Every line end of a source is in one of its spans. -/
theorem lastLine_tile (line : Nat) (source : List Char) :
    Item.lastLine line (tile source) = line + source.count '\n' := by
  rw [lastLine_eq, join_tile]

theorem kind_ne_eof {source : List Char} {span : Span} (h : span ∈ tile source) {kind : Kind}
    (hkind : span.shape = .token kind) : kind ≠ .eof := by
  rintro rfl
  have hempty : String.ofList span.text = "" := tile_spelled h _ 0 hkind
  exact tile_ne_nil h (by simpa using congrArg String.toList hempty)

end Span

/-! ## Items -/

namespace Item

/-- The item so many lines lower. -/
def lower (lines : Nat) : Item → Item
  | token t => token (t.move (.down lines))
  | error e => error { e with line := e.line + lines }

theorem ofSpans_lower (line lines : Nat) (spans : List Span) :
    ofSpans (line + lines) spans = (ofSpans line spans).map (lower lines) := by
  induction spans generalizing line with
  | nil => rfl
  | cons span spans ih =>
    rw [ofSpans, ofSpans, Nat.add_right_comm, ih, List.map_append]
    congr 1
    unfold ofSpan?
    split <;> rfl

theorem tokens_lower (lines : Nat) (items : List Item) :
    tokens (items.map (lower lines)) = (tokens items).map (Token.move (.down lines)) := by
  induction items with
  | nil => rfl
  | cons item items ih =>
    simp only [tokens] at ih
    cases item <;> simp [tokens, lower, ih]

theorem errors_lower {lines : Nat} {items : List Item} (h : errors items = []) :
    errors (items.map (lower lines)) = [] := by
  induction items with
  | nil => rfl
  | cons item items ih =>
    cases item with
    | token t => exact ih h
    | error e => exact nomatch h

/-- Empty lines have no items. -/
theorem ofSpans_replicate (line lines : Nat) (spans : List Span) :
    ofSpans line (List.replicate lines .lineEnd ++ spans) = ofSpans (line + lines) spans := by
  induction lines generalizing line with
  | zero => rfl
  | succ lines ih =>
    rw [Nat.add_comm lines, ← Nat.add_assoc, ← ih, Nat.add_comm, List.replicate_succ]
    rfl

/-- Without an error, no span is one. -/
theorem shape_ne_fault {line : Nat} {spans : List Span} (h : errors (ofSpans line spans) = [])
    (fault : LexFault) : ∀ span ∈ spans, span.shape ≠ .fault fault := by
  induction spans generalizing line with
  | nil => exact fun _ hm => nomatch hm
  | cons span spans ih =>
    simp only [ofSpans, errors, List.filterMap_append, List.append_eq_nil_iff] at h
    intro s hm hs
    rcases List.mem_cons.1 hm with rfl | hm
    · simp [ofSpan?, hs] at h
    · exact ih h.2 s hm hs

theorem kind_ne_eof {line : Nat} {spans : List Span}
    (h : ∀ span ∈ spans, ∀ kind, span.shape = .token kind → kind ≠ .eof) :
    ∀ t ∈ tokens (ofSpans line spans), t.kind ≠ .eof := by
  intro t ht
  obtain ⟨span, hspan, hshape, -⟩ := span_of_mem_tokens ht
  exact h span hspan _ hshape

end Item

/-! ## Sources -/

/-- The tokens of a source, without the end. -/
def words (source : String) : List Token :=
  Item.tokens (Item.ofSpans 1 (Span.tile source.toList))

theorem scan_fst (source : String) :
    (scan source).1 =
      words source ++ [⟨.eof, "", Item.lastLine 1 (Span.tile source.toList)⟩] := by
  simp [scan_eq, Item.ofSource, Item.tokens, words, Item.last]

theorem scan_snd (source : String) :
    (scan source).2 = Item.errors (Item.ofSpans 1 (Span.tile source.toList)) := by
  simp [scan_eq, Item.ofSource, Item.errors, Item.last]

theorem kind_ne_eof_of_words {source : String} {t : Token} (h : t ∈ words source) :
    t.kind ≠ .eof :=
  Item.kind_ne_eof (fun _ hs _ hk => Span.kind_ne_eof hs hk) t h

/-- The items of a source that stands behind another one and a line end. -/
theorem ofSpans_tile_append {before after : String} (h : (scan before).2 = []) :
    Item.ofSpans 1 (Span.tile (before ++ "\n" ++ after).toList) =
      Item.ofSpans 1 (Span.tile before.toList) ++
        (Item.ofSpans 1 (Span.tile after.toList)).map (Item.lower (lineEnds before + 1)) := by
  rw [scan_snd] at h
  have htext : (before ++ "\n" ++ after).toList = before.toList ++ '\n' :: after.toList := by simp
  rw [htext, Span.tile_append _ (Item.shape_ne_fault h _), Item.ofSpans_append,
    Span.lastLine_tile]
  exact congrArg _ (Item.ofSpans_lower 1 (lineEnds before + 1) _)

theorem words_append {before after : String} (h : (scan before).2 = []) :
    words (before ++ "\n" ++ after) =
      words before ++ (words after).map (Token.move (.down (lineEnds before + 1))) := by
  unfold words
  rw [ofSpans_tile_append h, Item.tokens, List.filterMap_append]
  exact congrArg _ (Item.tokens_lower _ _)

theorem errors_append {before after : String} (h : (scan before).2 = [])
    (h' : (scan after).2 = []) : (scan (before ++ "\n" ++ after)).2 = [] := by
  rw [scan_snd] at h' ⊢
  rw [ofSpans_tile_append h, Item.errors, List.filterMap_append]
  rw [scan_snd] at h
  exact List.append_eq_nil_iff.2 ⟨h, Item.errors_lower h'⟩

theorem ofSpans_tile_lowered (lines : Nat) (source : String) :
    Item.ofSpans 1 (Span.tile (lowered lines source).toList) =
      (Item.ofSpans 1 (Span.tile source.toList)).map (Item.lower lines) := by
  have htext : (lowered lines source).toList = List.replicate lines '\n' ++ source.toList := by
    simp [lowered]
  rw [htext, Span.tile_replicate, Item.ofSpans_replicate, Item.ofSpans_lower]

theorem words_lowered (lines : Nat) (source : String) :
    words (lowered lines source) = (words source).map (Token.move (.down lines)) := by
  unfold words
  rw [ofSpans_tile_lowered, Item.tokens_lower]

theorem errors_lowered (lines : Nat) {source : String} (h : (scan source).2 = []) :
    (scan (lowered lines source)).2 = [] := by
  rw [scan_snd] at h ⊢
  rw [ofSpans_tile_lowered, Item.errors_lower h]

end LoxLang
