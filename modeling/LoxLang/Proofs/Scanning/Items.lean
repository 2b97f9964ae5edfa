import LoxLang.Proofs.Scanning.Steps

/-!
# The items of a source

1. `Stream.scans_ofSource`: the steps of scanning take the spans of a source, one after another.
2. `Stream.yields_ofSource`: its stream has one item for each span that is not blank, and an end.
3. `scan_eq`: scanning tells them apart.
-/

namespace LoxLang

open Utf8

namespace Stream

variable {s : Stream} {before rest : List Char}

/-! ## Steps one after another -/

/-- A step of scanning: from where up to where it took bytes, the line reached there, and what it
came to. -/
structure Taken where
  first : Nat
  last : Nat
  line : Nat
  found : Found

/-- The steps of a stream until all bytes are taken, each from where the one before it stopped:

* `done`: no byte is left;
* `step`: a step that does not fail, and the steps behind it. -/
inductive Scans : Stream → List Taken → Prop
  | done {s : Stream} : s.atEnd → Scans s []
  | step {s rest : Stream} {found : Found} {taken : List Taken} : s.atEnd = false →
      s.anew.scanToken = some (found, rest) → Scans rest taken →
      Scans s (⟨s.pos, rest.pos, rest.line, found⟩ :: taken)

theorem At.anew (h : s.At before rest) : s.anew.At before rest :=
  ⟨h.source, h.pos⟩

theorem At.behind {span : Span} (h : s.At before (span.text ++ rest)) :
    (s.behind span).At (before ++ span.text) rest :=
  ⟨h.pass.source, h.pass.pos⟩

theorem At.atEnd (h : s.At before []) : s.atEnd :=
  decide_eq_true (Nat.le_of_eq h.size)

theorem At.not_atEnd {c : Char} (h : s.At before (c :: rest)) : s.atEnd = false :=
  decide_eq_false (Nat.not_le.2 h.lt_size)

theorem At.first {c : Char} (h : s.At before (c :: rest)) :
    s.At before ((Span.first c rest).1.text ++ (Span.first c rest).2) := by
  rw [Span.first_text]
  exact h

/-- The line ends of the characters that a stream is behind. -/
theorem lineFeeds_before (h : s.At before rest) :
    lineFeeds (s.source.toByteArray.extract 0 s.pos) = before.count '\n' := by
  rw [lineFeeds_extract, bytesFrom, List.drop_zero, units_source h.source, units_append, h.pos,
    Nat.sub_zero, width, List.take_left, count_units (by decide)]

/-- A step that takes the bytes of a span of a source, and finds what the span is. -/
def Taken.Is (source : String) (taken : Taken) (span : Span) : Prop :=
  slice? source taken.first taken.last = some (String.ofList span.text) ∧
    taken.found = .ofShape taken.line span.shape

/-- The line reached at the end of a step is one further than the first for each line feed before
that place. -/
def Taken.Counted (source : String) (taken : Taken) : Prop :=
  taken.line = 1 + lineFeeds (source.toByteArray.extract 0 taken.last)

theorem scans_at (h : s.At before rest) (hline : s.line = 1 + before.count '\n') :
    ∃ taken, s.Scans taken ∧
      s.pos :: taken.map Taken.last = taken.map Taken.first ++ [s.size] ∧
      List.Forall₂ (Taken.Is s.source) taken (Span.tile rest) ∧
      ∀ t ∈ taken, t.Counted s.source := by
  fun_induction Span.tile rest generalizing s before with
  | case1 => exact ⟨[], .done h.atEnd, congrArg (· :: []) h.size.symm, .nil, List.forall_mem_nil _⟩
  | case2 c rest ih =>
    -- The step takes the first span, and stops where the other spans begin.
    have hbehind := h.anew.first.behind
    have hreached : (s.anew.behind (Span.first c rest).1).line =
        1 + (before ++ (Span.first c rest).1.text).count '\n' := by
      rw [List.count_append, ← Nat.add_assoc, ← hline]
      rfl
    obtain ⟨taken, hscans, hplaces, hspans, hlines⟩ := ih hbehind hreached
    refine ⟨_, .step h.not_atEnd (scanToken_eq h.anew rfl) hscans, congrArg (s.pos :: ·) hplaces,
      .cons ⟨h.first.slice?_eq, rfl⟩ hspans, List.forall_mem_cons.2 ⟨?_, hlines⟩⟩
    exact hreached.trans (congrArg (1 + ·) (lineFeeds_before hbehind).symm)

/-- The steps of scanning a source take its spans, each from where the one before it stopped, and
count its lines. -/
theorem scans_ofSource (source : String) :
    ∃ taken, (ofSource source).Scans taken ∧
      0 :: taken.map Taken.last = taken.map Taken.first ++ [source.utf8ByteSize] ∧
      List.Forall₂ (Taken.Is source) taken (Span.tile source.toList) ∧
      ∀ t ∈ taken, t.Counted source :=
  scans_at (at_ofSource source) rfl

theorem isValid_of_pos? {source : String} {place : Nat} {found : source.Pos}
    (h : source.pos? ⟨place⟩ = some found) : (⟨place⟩ : String.Pos.Raw).IsValid source := by
  obtain ⟨found', hfound, -⟩ := Option.map_eq_some_iff.1 h
  rw [String.Slice.pos?] at hfound
  split at hfound
  · next hvalid =>
    exact String.Pos.Raw.isValidForSlice_toSlice_iff.1
      (String.Pos.Raw.isValidForSlice_eq_true_iff.1 hvalid)
  · cases hfound

/-- Text is cut out between characters only. -/
theorem isValid_of_slice? {source text : String} {first last : Nat}
    (h : slice? source first last = some text) :
    (⟨first⟩ : String.Pos.Raw).IsValid source ∧ (⟨last⟩ : String.Pos.Raw).IsValid source := by
  obtain ⟨first', hfirst, h⟩ := Option.bind_eq_some_iff.1 h
  obtain ⟨last', hlast, -⟩ := Option.bind_eq_some_iff.1 h
  exact ⟨isValid_of_pos? hfirst, isValid_of_pos? hlast⟩

theorem isValid_of_spans {source : String} {taken : List Taken} {spans : List Span}
    (h : List.Forall₂ (Taken.Is source) taken spans) :
    ∀ t ∈ taken, (⟨t.first⟩ : String.Pos.Raw).IsValid source ∧
      (⟨t.last⟩ : String.Pos.Raw).IsValid source := by
  induction h with
  | nil => nofun
  | cons his _ ih => exact List.forall_mem_cons.2 ⟨isValid_of_slice? his.1, ih⟩

/-! ## Items one after another -/

/-- What comes of asking for items until there is none:

* `ended`: the end token has been given, and nothing follows it;
* `item`: an item, and what comes of asking on. -/
inductive Yields : Stream → List Item → Prop
  | ended {s : Stream} : s.pull = .ended → Yields s []
  | item {s rest : Stream} {item : Item} {items : List Item} : s.pull = .item item rest →
      Yields rest items → Yields s (item :: items)

theorem Yields.of_pull_eq {s s' : Stream} {items : List Item} (h : s'.pull = s.pull)
    (hs : s.Yields items) : s'.Yields items := by
  cases hs with
  | ended hpull => exact .ended (h.trans hpull)
  | item hpull hrest => exact .item (h.trans hpull) hrest

theorem pull_of_ended (h : s.ended) : s.pull = .ended := by
  rw [pull, if_pos h]

theorem pull_of_atEnd (hended : s.ended = false) (h : s.atEnd) :
    s.pull = .item (.last s.line) { s with ended := true } := by
  rw [pull, hended, if_neg Bool.false_ne_true, dif_pos h]

theorem pull_of_nothing {s' : Stream} (hended : s.ended = false) (h : s.atEnd = false)
    (hstep : s.anew.scanToken = some (.nothing, s')) : s.pull = s'.pull := by
  rw [pull, hended, if_neg Bool.false_ne_true, dif_neg (Bool.eq_false_iff.1 h)]
  split <;> simp_all

theorem pull_of_token {s' : Stream} {kind : Kind} {text : String} (hended : s.ended = false)
    (h : s.atEnd = false) (hstep : s.anew.scanToken = some (.token kind, s'))
    (htext : s'.lexeme? = some text) : s.pull = .item (.token ⟨kind, text, s'.line⟩) s' := by
  rw [pull, hended, if_neg Bool.false_ne_true, dif_neg (Bool.eq_false_iff.1 h)]
  split <;> simp_all

theorem pull_of_error {s' : Stream} {e : LexError} (hended : s.ended = false)
    (h : s.atEnd = false) (hstep : s.anew.scanToken = some (.error e, s')) :
    s.pull = .item (.error e) s' := by
  rw [pull, hended, if_neg Bool.false_ne_true, dif_neg (Bool.eq_false_iff.1 h)]
  split <;> simp_all

/-- Asking for an item at the first character of what is left. -/
theorem At.pull_eq {c : Char} (h : s.At before (c :: rest)) (hended : s.ended = false) :
    s.pull =
      match Item.ofSpan? (s.line + (Span.first c rest).1.newlines) (Span.first c rest).1 with
      | some item => .item item (s.anew.behind (Span.first c rest).1)
      | none => (s.anew.behind (Span.first c rest).1).pull := by
  have hstep := scanToken_eq h.anew rfl
  have htext := h.first.slice?_eq
  generalize (Span.first c rest).1 = span at hstep htext
  obtain ⟨text, shape⟩ := span
  cases shape with
  | blank => exact pull_of_nothing hended h.not_atEnd hstep
  | token kind => exact pull_of_token hended h.not_atEnd hstep htext
  | fault fault => exact pull_of_error hended h.not_atEnd hstep

theorem yields_at (h : s.At before rest) (hended : s.ended = false) :
    s.Yields (Item.ofSpans s.line (Span.tile rest) ++
      [Item.last (Item.lastLine s.line (Span.tile rest))]) := by
  fun_induction Span.tile rest generalizing s before with
  | case1 => exact .item (pull_of_atEnd hended h.atEnd) (.ended (pull_of_ended rfl))
  | case2 c rest ih =>
    have hpull := h.pull_eq hended
    have hrest := ih h.anew.first.behind hended
    rw [Item.ofSpans]
    split at hpull
    · next item hitem =>
      rw [hitem]
      exact .item hpull hrest
    · next hitem =>
      rw [hitem]
      exact hrest.of_pull_eq hpull

theorem yields_ofSource (source : String) : (ofSource source).Yields (Item.ofSource source) :=
  yields_at (at_ofSource source) rfl

/-! ## All items at once -/

/-- Asking often enough brings all items. -/
theorem Yields.take_eq {items : List Item} (h : s.Yields items) {limit : Nat}
    (hlimit : items.length ≤ limit) : (s.take limit).1 = items := by
  induction h generalizing limit with
  | ended hpull =>
    cases limit with
    | zero => rfl
    | succ limit => rw [take, next?, hpull]
  | item hpull _ ih =>
    cases limit with
    | zero => cases hlimit
    | succ limit =>
      rw [take, next?, hpull]
      exact congrArg (_ :: ·) (ih (Nat.le_of_succ_le_succ hlimit))

end Stream

theorem length_tile_le (source : List Char) : (Span.tile source).length ≤ width source := by
  fun_induction Span.tile source with
  | case1 => exact Nat.zero_le _
  | case2 c rest ih =>
    have hpos : 0 < width (Span.first c rest).1.text := width_pos (Span.first_ne_nil c rest)
    have hwidth := congrArg width (Span.first_text c rest)
    rw [width_append] at hwidth
    rw [List.length_cons]
    omega

theorem length_ofSpans_le (line : Nat) (spans : List Span) :
    (Item.ofSpans line spans).length ≤ spans.length := by
  induction spans generalizing line with
  | nil => exact Nat.le_refl 0
  | cons span spans ih =>
    have hone : (Item.ofSpan? (line + span.newlines) span).toList.length ≤ 1 := by
      cases Item.ofSpan? (line + span.newlines) span with
      | none => exact Nat.zero_le 1
      | some item => exact Nat.le_refl 1
    rw [Item.ofSpans, List.length_append, List.length_cons, Nat.add_comm]
    exact Nat.add_le_add (ih _) hone

/-- A source has no more items than bytes, its end apart. -/
theorem length_ofSource_le (source : String) :
    (Item.ofSource source).length ≤ source.utf8ByteSize + 1 := by
  have hsize : source.utf8ByteSize = width source.toList :=
    Stream.size_of_source (s := Stream.ofSource source) String.ofList_toList.symm
  rw [Item.ofSource, List.length_append, hsize]
  exact Nat.succ_le_succ ((length_ofSpans_le 1 _).trans (length_tile_le _))

/-- Scanning gives the tokens and the errors among the items of a source. -/
theorem scan_eq (source : String) :
    scan source = (Item.tokens (Item.ofSource source), Item.errors (Item.ofSource source)) := by
  have htake := (Stream.yields_ofSource source).take_eq (length_ofSource_le source)
  simp only [scan, Stream.drain]
  exact congrArg (fun items => (Item.tokens items, Item.errors items)) htake

end LoxLang
