import LoxLang.Proofs.Scanning.Items

/-!
# The longest match

The lexical grammar alone says into which spans a source is cut and what is read from them.

1. `Span.tiling_iff`: the spans of a source are the only ones that the grammar allows.
2. `Item.gives_ofSpans`: spans that are not blank give one item each.
3. `scan_longest_match`: both, for the steps of scanning and the items of the stream.
-/

namespace LoxLang

namespace Span

/-- Each span is what the grammar cuts off where the one before it ends; the last ends the
source. -/
inductive Tiling : List Char → List Span → Prop
  | nil : Tiling [] []
  | cons {span : Span} {rest : List Char} {spans : List Span} : Cut (span.text ++ rest) span →
      Tiling rest spans → Tiling (span.text ++ rest) (span :: spans)

theorem tiling_tile (source : List Char) : Tiling source (tile source) := by
  fun_induction tile source with
  | case1 => exact .nil
  | case2 c rest ih =>
    have hcut := cut_first c rest
    rw [← first_text c rest] at hcut ⊢
    exact .cons hcut ih

theorem Cut.ne_nil {source : List Char} {span : Span} (h : Cut source span) : span.text ≠ [] := by
  cases h with
  | lexeme h _ _ => exact h.ne_nil
  | unexpected _ _ _ => exact List.cons_ne_nil _ _
  | unterminated hsource _ _ => exact hsource ▸ List.cons_ne_nil _ _

/-- The spans of a source are the only ones that the grammar allows. -/
theorem tiling_iff {source : List Char} {spans : List Span} :
    Tiling source spans ↔ spans = tile source := by
  constructor
  · intro h
    induction h with
    | nil => rw [tile]
    | @cons span rest spans hcut _ ih =>
      obtain ⟨c, others, hsource⟩ := List.exists_cons_of_ne_nil
        (List.append_ne_nil_of_left_ne_nil hcut.ne_nil rest)
      rw [hsource] at hcut ⊢
      obtain rfl := hcut.eq (cut_first c others)
      obtain rfl : rest = (first c others).2 :=
        List.append_cancel_left (hsource.trans (first_text c others).symm)
      rw [tile, ih]
  · rintro rfl
    exact tiling_tile source

theorem Tiling.cut {source : List Char} {spans : List Span} (h : Tiling source spans)
    {span : Span} (hspan : span ∈ spans) : ∃ rest, Cut (span.text ++ rest) span := by
  induction h with
  | nil => exact absurd hspan List.not_mem_nil
  | cons hcut _ ih =>
    rcases List.mem_cons.1 hspan with rfl | hspan
    · exact ⟨_, hcut⟩
    · exact ih hspan

/-- A span is a reserved word just if all of it is that word. -/
theorem Cut.keyword_iff {source : List Char} {span : Span} (h : Cut source span) (k : Keyword) :
    span.shape = .token (.keyword k) ↔ String.ofList span.text = k.text := by
  have hword : ∀ {text}, String.ofList text = k.text → Lexeme text (.token (.keyword k)) := by
    intro text htext
    have hlist : text = k.text.toList := by rw [← htext, String.toList_ofList]
    exact hlist ▸ Lexeme.keyword k
  cases h with
  | lexeme h _ _ =>
    refine ⟨fun hshape => ?_, fun htext => h.shape_eq (hword htext)⟩
    obtain rfl := hshape
    cases h with
    | keyword k => exact String.ofList_toList
  | unexpected hsource _ hnone =>
    exact ⟨nofun, fun htext => absurd ⟨_, hsource.symm⟩ (hnone _ _ (hword htext))⟩
  | unterminated _ _ hnone =>
    exact ⟨nofun, fun htext => absurd List.prefix_rfl (hnone _ _ (hword htext))⟩

/-- What is read from a span: a token with its text, or an error. From a blank nothing is read. -/
def Gives (span : Span) (item : Item) : Prop :=
  match span.shape with
  | .blank => False
  | .token kind => ∃ line, item = .token ⟨kind, String.ofList span.text, line⟩
  | .fault fault => ∃ line, item = .error ⟨line, fault⟩

end Span

/-- Spans that are not blank give one item each, in order. -/
theorem Item.gives_ofSpans (line : Nat) (spans : List Span) :
    List.Forall₂ Span.Gives (spans.filter fun span => span.shape ≠ .blank)
      (Item.ofSpans line spans) := by
  induction spans generalizing line with
  | nil => exact .nil
  | cons span spans ih =>
    rw [Item.ofSpans]
    cases hshape : span.shape with
    | blank => simpa [hshape, Item.ofSpan?] using ih _
    | token kind =>
      have hgives : span.Gives (.token ⟨kind, String.ofList span.text, line + span.newlines⟩) := by
        simp [Span.Gives, hshape]
      simpa [hshape, Item.ofSpan?] using List.Forall₂.cons hgives (ih _)
    | fault fault =>
      have hgives : span.Gives (.error ⟨line + span.newlines, fault⟩) := by
        simp [Span.Gives, hshape]
      simpa [hshape, Item.ofSpan?] using List.Forall₂.cons hgives (ih _)

/-- A source is cut into spans without loss, each the longest text of a class that stands where it
begins, and only without any such text a fault; those that are reserved words as a whole are read as
such. No step of scanning fails: they take the bytes of these spans, each from where the one before
it stopped and all between two characters. The stream has an item for each span that is not blank,
in order, then one end and nothing more; scanning tells its tokens and its errors apart. -/
theorem scan_longest_match (source : String) :
    (∀ spans, Span.Tiling source.toList spans ↔ spans = Span.tile source.toList) ∧
    (Span.tile source.toList).flatMap Span.text = source.toList ∧
    (∀ span ∈ Span.tile source.toList, ∀ k : Keyword,
      span.shape = .token (.keyword k) ↔ String.ofList span.text = k.text) ∧
    (∃ taken, (Stream.ofSource source).Scans taken ∧
      0 :: taken.map Stream.Taken.last =
        taken.map Stream.Taken.first ++ [source.utf8ByteSize] ∧
      (∀ t ∈ taken, (⟨t.first⟩ : String.Pos.Raw).IsValid source ∧
        (⟨t.last⟩ : String.Pos.Raw).IsValid source) ∧
      List.Forall₂ (Stream.Taken.Is source) taken (Span.tile source.toList)) ∧
    ∃ items line,
      List.Forall₂ Span.Gives
        ((Span.tile source.toList).filter fun span => span.shape ≠ .blank) items ∧
      (Stream.ofSource source).Yields (items ++ [.token ⟨.eof, "", line⟩]) ∧
      scan source = (Item.tokens (items ++ [.token ⟨.eof, "", line⟩]), Item.errors items) := by
  have htiling := Span.tiling_tile source.toList
  obtain ⟨taken, hscans, hplaces, hspans, -⟩ := Stream.scans_ofSource source
  refine ⟨fun _ => Span.tiling_iff, Span.join_tile _, fun span hspan k => ?_,
    ⟨taken, hscans, hplaces, Stream.isValid_of_spans hspans, hspans⟩, _, _,
    Item.gives_ofSpans 1 _, Stream.yields_ofSource source, ?_⟩
  · obtain ⟨rest, hcut⟩ := htiling.cut hspan
    exact hcut.keyword_iff k
  · rw [scan_eq]
    simp [Item.ofSource, Item.errors, Item.last]

end LoxLang
