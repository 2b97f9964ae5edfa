import LoxLang.Proofs.Scanning.LongestMatch
import LoxLang.Proofs.Splitting.Seam

/-!
# Lines

An item says on which line its text ends: the first, and one further for every line end of the
source up to there, whether it stands between tokens, in a comment, in a string or in text that is
no token.

1. `Span.Tiling.readAs`: span by span, from the text that stands before them.
2. `Item.lines_ofSpans`: the lines of later spans are no smaller.
3. `scan_lines`: both, for a whole source.
-/

namespace LoxLang

namespace Span

/-- The spans of a text, each with what stands before it. -/
def placed (before : List Char) : List Span → List (List Char × Span)
  | [] => []
  | span :: spans => (before, span) :: placed (before ++ span.text) spans

/-- What is read from a span of a source behind some other text. The line is that of the end of the
span: of one character that no token begins with, or of the whole source from a quote that is not
closed. -/
inductive ReadAs (source : List Char) : List Char × Span → Item → Prop
  | token {before text after : List Char} {kind : Kind} : source = before ++ text ++ after →
      ReadAs source (before, ⟨text, .token kind⟩)
        (.token ⟨kind, String.ofList text, 1 + (before ++ text).count '\n'⟩)
  | unexpected {before after : List Char} {c : Char} : source = before ++ [c] ++ after →
      ReadAs source (before, ⟨[c], .fault (.unexpected c)⟩)
        (.error ⟨1 + (before ++ [c]).count '\n', .unexpected c⟩)
  | unterminated {before text : List Char} : source = before ++ text →
      ReadAs source (before, ⟨text, .fault .unterminated⟩)
        (.error ⟨1 + source.count '\n', .unterminated⟩)

/-- A span cut off behind some text is read as the item that it gives there. -/
theorem Cut.readAs {before rest here : List Char} {span : Span} (h : Cut here span)
    (hhere : here = span.text ++ rest) {item : Item}
    (hitem : Item.ofSpan? (1 + (before ++ span.text).count '\n') span = some item) :
    ReadAs (before ++ here) (before, span) item := by
  subst hhere
  rw [← List.append_assoc]
  cases hshape : span.shape with
  | blank => simp [Item.ofSpan?, hshape] at hitem
  | token kind =>
    obtain ⟨text, shape⟩ := span
    obtain rfl : shape = .token kind := hshape
    obtain rfl := Option.some.inj hitem
    exact .token rfl
  | fault fault =>
    generalize hsource : span.text ++ rest = here at h
    cases h with
    | lexeme h _ _ =>
      obtain rfl := hshape
      cases h
    | unexpected _ _ _ =>
      obtain rfl := Option.some.inj hitem
      exact .unexpected rfl
    | unterminated _ _ _ =>
      obtain rfl : rest = [] := List.append_right_eq_self.1 hsource
      obtain rfl := Option.some.inj hitem
      rw [List.append_nil]
      exact .unterminated rfl

/-- The spans of what stands behind some text are read, all but blanks, as its items there. -/
theorem Tiling.readAs {here : List Char} {spans : List Span} (h : Tiling here spans)
    (before : List Char) :
    List.Forall₂ (ReadAs (before ++ here))
      ((placed before spans).filter fun p => p.2.shape ≠ .blank)
      (Item.ofSpans (1 + before.count '\n') spans) := by
  induction h generalizing before with
  | nil => exact .nil
  | @cons span rest spans hcut _ ih =>
    have hline : 1 + before.count '\n' + span.newlines =
        1 + (before ++ span.text).count '\n' := by
      rw [List.count_append, Nat.add_assoc]
      rfl
    have hrest := ih (before ++ span.text)
    rw [List.append_assoc] at hrest
    rw [placed, Item.ofSpans, hline]
    cases hitem : Item.ofSpan? (1 + (before ++ span.text).count '\n') span with
    | none =>
      have hblank : span.shape = .blank := by
        unfold Item.ofSpan? at hitem
        split at hitem
        · assumption
        · cases hitem
        · cases hitem
      simpa [hblank] using hrest
    | some item =>
      have hshape : span.shape ≠ .blank := fun hblank => by simp [Item.ofSpan?, hblank] at hitem
      simpa [hshape] using List.Forall₂.cons (hcut.readAs rfl hitem) hrest

end Span

namespace Item

/-- The line that an item is on. -/
def line : Item → Nat
  | token t => t.line
  | error e => e.line

theorem line_of_ofSpan? {line : Nat} {span : Span} {item : Item}
    (h : ofSpan? line span = some item) : item.line = line := by
  unfold ofSpan? at h
  split at h
  · exact nomatch h
  · obtain rfl := Option.some.inj h
    rfl
  · obtain rfl := Option.some.inj h
    rfl

/-- Lines do not decrease from the first span to the last, and none is behind the end. -/
theorem lines_ofSpans (line : Nat) (spans : List Span) :
    line ≤ lastLine line spans ∧
      (∀ item ∈ ofSpans line spans, line ≤ item.line ∧ item.line ≤ lastLine line spans) ∧
      ((ofSpans line spans).map Item.line).Pairwise (· ≤ ·) := by
  induction spans generalizing line with
  | nil => exact ⟨Nat.le_refl _, nofun, .nil⟩
  | cons span spans ih =>
    obtain ⟨hlast, hall, hsorted⟩ := ih (line + span.newlines)
    have hfirst : line ≤ line + span.newlines := Nat.le_add_right ..
    have hlater : ∀ item ∈ ofSpans (line + span.newlines) spans,
        line ≤ item.line ∧ item.line ≤ lastLine line (span :: spans) :=
      fun item h => ⟨hfirst.trans (hall item h).1, (hall item h).2⟩
    refine ⟨hfirst.trans hlast, ?_⟩
    rw [ofSpans]
    cases hitem : ofSpan? (line + span.newlines) span with
    | none => exact ⟨hlater, hsorted⟩
    | some item =>
      have hline := line_of_ofSpan? hitem
      constructor
      · intro other hother
        rcases List.mem_cons.1 hother with rfl | hother
        · exact ⟨hline ▸ hfirst, hline ▸ hlast⟩
        · exact hlater other hother
      · refine List.pairwise_cons.2 ⟨fun l hl => ?_, hsorted⟩
        obtain ⟨other, hother, rfl⟩ := List.mem_map.1 hl
        exact hline ▸ (hall other hother).1

end Item

/-- A source is read as one item for each span that is no blank, on the line on which the span ends,
and an end on the last line of the source; that is what scanning tells apart. After every step of
scanning, the line reached is one further than the first for each line feed that it is behind. Lines
never decrease along the stream. -/
theorem scan_lines (source : String) :
    (∃ taken, (Stream.ofSource source).Scans taken ∧
      ∀ t ∈ taken, t.line = 1 + Stream.lineFeeds (source.toByteArray.extract 0 t.last)) ∧
    ∃ items stream,
      List.Forall₂ (Span.ReadAs source.toList)
        ((Span.placed [] (Span.tile source.toList)).filter fun p => p.2.shape ≠ .blank) items ∧
      stream = items ++ [.token ⟨.eof, "", 1 + source.toList.count '\n'⟩] ∧
      (Stream.ofSource source).Yields stream ∧
      scan source = (Item.tokens stream, Item.errors stream) ∧
      (stream.map Item.line).Pairwise (· ≤ ·) := by
  obtain ⟨taken, hscans, -, -, hcounted⟩ := Stream.scans_ofSource source
  have hread := (Span.tiling_tile source.toList).readAs []
  refine ⟨⟨taken, hscans, hcounted⟩, _, Item.ofSource source, hread, ?_,
    Stream.yields_ofSource source, scan_eq source, ?_⟩
  · rw [Item.ofSource, Span.lastLine_tile]
    rfl
  · obtain ⟨-, hall, hsorted⟩ := Item.lines_ofSpans 1 (Span.tile source.toList)
    rw [Item.ofSource, List.map_append, List.pairwise_append]
    refine ⟨hsorted, List.pairwise_singleton _ _, fun l hl l' hl' => ?_⟩
    obtain ⟨item, hitem, rfl⟩ := List.mem_map.1 hl
    obtain rfl := List.mem_singleton.1 hl'
    exact (hall item hitem).2

end LoxLang
