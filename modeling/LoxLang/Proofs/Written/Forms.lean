import Mathlib.Data.List.TakeWhile
import Mathlib.Data.String.Basic

/-!
# Forms

What the text of a tree looks like: words, and forms in parentheses that are headed by a word, with
blanks between. Read from the left, a form says by itself where it ends, because a blank or a
parenthesis ends a word and none is part of one. So no two forms have the same text.

1. `Form.eq_of_append`: a form at the beginning of a text.
2. `Form.eq_of_text_eq`: the form of a whole text.
-/

namespace LoxLang

/-- A text of nested parentheses, taken apart. -/
inductive Form where
  | word (text : String)
  /-- Forms in parentheses, headed by a word. -/
  | list (head : String) (items : List Form)
  /-- A name with other names in parentheses, and no blank before these. -/
  | signature (name : String) (params : List String)

/-- Does the character end a word? -/
def endsWord (c : Char) : Bool :=
  c == ' ' || c == '(' || c == ')'

/-- Nothing in the text ends it. -/
structure Unbroken (s : String) : Prop where
  ne_nil : s.toList ≠ []
  inside : ∀ c ∈ s.toList, endsWord c = false

theorem unbroken_iff {s : String} :
    (s.toList ≠ [] ∧ s.toList.all fun c => !endsWord c) ↔ Unbroken s :=
  ⟨fun h => ⟨h.1, fun c hc => by simpa using List.all_eq_true.1 h.2 c hc⟩,
    fun h => ⟨h.ne_nil, List.all_eq_true.2 fun c hc => by simpa using h.inside c hc⟩⟩

instance (s : String) : Decidable (Unbroken s) :=
  decidable_of_iff _ unbroken_iff

/-- What may stand behind a word: nothing, or a character that ends it. -/
def Breaks (rest : List Char) : Prop :=
  ∀ c ∈ rest.head?, endsWord c

/-- What may stand behind a form: nothing, a blank, or the end of the form around it. -/
def Closes (rest : List Char) : Prop :=
  ∀ c ∈ rest.head?, c = ' ' ∨ c = ')'

section

variable {rest rest' : List Char}

theorem Closes.breaks (h : Closes rest) : Breaks rest := by
  intro c hc
  rcases h c hc with rfl | rfl <;> rfl

theorem breaks_cons {c : Char} (h : endsWord c) (rest : List Char) : Breaks (c :: rest) := by
  simpa [Breaks] using h

theorem closes_cons {c : Char} (h : c = ' ' ∨ c = ')') (rest : List Char) :
    Closes (c :: rest) := by
  simpa [Closes] using h

theorem not_closes_opening (rest : List Char) : ¬Closes ('(' :: rest) :=
  fun h => absurd (h '(' rfl) (by decide)

namespace Unbroken

variable {s s' : String}

/-- No character that ends a word begins one. -/
theorem not_cons (h : Unbroken s) {c : Char} (hc : endsWord c) {more : List Char} :
    s.toList ++ rest ≠ c :: more := by
  intro heq
  obtain ⟨d, text, htext⟩ := List.exists_cons_of_ne_nil h.ne_nil
  rw [htext] at heq
  obtain ⟨rfl, -⟩ := List.cons.inj heq
  rw [h.inside d (htext ▸ List.mem_cons_self)] at hc
  exact Bool.false_ne_true hc

theorem takeWhile_append (h : Unbroken s) (hrest : Breaks rest) :
    (s.toList ++ rest).takeWhile (fun c => !endsWord c) = s.toList := by
  rw [List.takeWhile_append_of_pos fun c hc => by simpa using h.inside c hc]
  cases rest with
  | nil => exact List.append_nil _
  | cons c rest =>
    have hc : endsWord c := hrest c rfl
    rw [List.takeWhile_cons_of_neg (by simpa using hc), List.append_nil]

/-- A word ends where something breaks it off. -/
theorem eq_of_append (h : Unbroken s) (h' : Unbroken s') (hrest : Breaks rest)
    (hrest' : Breaks rest') (heq : s.toList ++ rest = s'.toList ++ rest') :
    s = s' ∧ rest = rest' := by
  have htext : s.toList = s'.toList := by
    rw [← h.takeWhile_append hrest, heq, h'.takeWhile_append hrest']
  refine ⟨String.toList_inj.1 htext, ?_⟩
  rw [htext] at heq
  exact List.append_cancel_left heq

end Unbroken

end

namespace Form

mutual

/-- The text of a form. -/
def text : Form → String
  | word text => text
  | list head items => "(" ++ head ++ tailText items ++ ")"
  | signature name params => name ++ "(" ++ " ".intercalate params ++ ")"

/-- Forms, each after a blank. -/
def tailText : List Form → String
  | [] => ""
  | f :: rest => " " ++ f.text ++ tailText rest

end

mutual

/-- All words of a form are unbroken. -/
def Sound : Form → Prop
  | word text => Unbroken text
  | list head items => Unbroken head ∧ AllSound items
  | signature name params => Unbroken name ∧ ∀ p ∈ params, Unbroken p

def AllSound : List Form → Prop
  | [] => True
  | f :: rest => f.Sound ∧ AllSound rest

end

theorem toList_list (head : String) (items : List Form) (rest : List Char) :
    (list head items).text.toList ++ rest =
      '(' :: (head.toList ++ ((tailText items).toList ++ ')' :: rest)) := by
  simp [text]

theorem toList_signature (name : String) (params : List String) (rest : List Char) :
    (signature name params).text.toList ++ rest =
      name.toList ++ '(' :: ((" ".intercalate params).toList ++ ')' :: rest) := by
  simp [text]

theorem toList_tailText_cons (f : Form) (fs : List Form) (rest : List Char) :
    (tailText (f :: fs)).toList ++ rest =
      ' ' :: (f.text.toList ++ ((tailText fs).toList ++ rest)) := by
  simp [tailText]

/-- Behind an item come further items, or the end of the list. -/
theorem closes_tailText (fs : List Form) (rest : List Char) :
    Closes ((tailText fs).toList ++ ')' :: rest) := by
  cases fs with
  | nil => exact closes_cons (.inr rfl) rest
  | cons f fs =>
    rw [toList_tailText_cons]
    exact closes_cons (.inl rfl) _

/-- Parameters after the first one, each after a blank. -/
theorem toList_intercalate_cons (p : String) (ps : List String) :
    (" ".intercalate (p :: ps)).toList = p.toList ++ (tailText (ps.map word)).toList := by
  induction ps generalizing p with
  | nil => simp [tailText, String.intercalate_singleton]
  | cons q ps ih => simp [tailText, text, String.intercalate_cons_cons, ih]

/-- Words after blanks, up to the end of the form around them. -/
theorem words_eq_of_append {ps qs : List String} {rest rest' : List Char}
    (hps : ∀ p ∈ ps, Unbroken p) (hqs : ∀ q ∈ qs, Unbroken q)
    (heq : (tailText (ps.map word)).toList ++ ')' :: rest =
      (tailText (qs.map word)).toList ++ ')' :: rest') : ps = qs ∧ rest = rest' := by
  induction ps generalizing qs with
  | nil =>
    cases qs with
    | nil => exact ⟨rfl, (List.cons.inj heq).2⟩
    | cons q qs =>
      rw [List.map_cons, toList_tailText_cons] at heq
      exact absurd (List.cons.inj heq).1 (by decide)
  | cons p ps ih =>
    cases qs with
    | nil =>
      rw [List.map_cons, toList_tailText_cons] at heq
      exact absurd (List.cons.inj heq).1 (by decide)
    | cons q qs =>
      obtain ⟨hp, hps'⟩ := List.forall_mem_cons.1 hps
      obtain ⟨hq, hqs'⟩ := List.forall_mem_cons.1 hqs
      rw [List.map_cons, List.map_cons, toList_tailText_cons, toList_tailText_cons] at heq
      obtain ⟨rfl, htail⟩ := hp.eq_of_append hq (closes_tailText _ _).breaks
        (closes_tailText _ _).breaks (List.cons.inj heq).2
      obtain ⟨rfl, hmore⟩ := ih hps' hqs' htail
      exact ⟨rfl, hmore⟩

theorem params_eq_of_append {ps qs : List String} {rest rest' : List Char}
    (hps : ∀ p ∈ ps, Unbroken p) (hqs : ∀ q ∈ qs, Unbroken q)
    (heq : (" ".intercalate ps).toList ++ ')' :: rest =
      (" ".intercalate qs).toList ++ ')' :: rest') : ps = qs ∧ rest = rest' := by
  cases ps with
  | nil =>
    cases qs with
    | nil => exact ⟨rfl, (List.cons.inj heq).2⟩
    | cons q qs =>
      rw [toList_intercalate_cons, List.append_assoc] at heq
      exact absurd heq.symm ((hqs q List.mem_cons_self).not_cons rfl)
  | cons p ps =>
    cases qs with
    | nil =>
      rw [toList_intercalate_cons, List.append_assoc] at heq
      exact absurd heq ((hps p List.mem_cons_self).not_cons rfl)
    | cons q qs =>
      obtain ⟨hp, hps'⟩ := List.forall_mem_cons.1 hps
      obtain ⟨hq, hqs'⟩ := List.forall_mem_cons.1 hqs
      rw [toList_intercalate_cons, toList_intercalate_cons, List.append_assoc,
        List.append_assoc] at heq
      obtain ⟨rfl, htail⟩ := hp.eq_of_append hq (closes_tailText _ _).breaks
        (closes_tailText _ _).breaks heq
      obtain ⟨rfl, hmore⟩ := words_eq_of_append hps' hqs' htail
      exact ⟨rfl, hmore⟩

mutual

/-- A form at the beginning of a text, and what stands behind it, are determined by the text. -/
theorem eq_of_append : ∀ {f g : Form} {rest rest' : List Char}, f.Sound → g.Sound →
    Closes rest → Closes rest' → f.text.toList ++ rest = g.text.toList ++ rest' →
      f = g ∧ rest = rest'
  | word _, word _, _, _, hf, hg, hrest, hrest', heq => by
    obtain ⟨rfl, hmore⟩ := Unbroken.eq_of_append hf hg hrest.breaks hrest'.breaks heq
    exact ⟨rfl, hmore⟩
  | word _, list _ _, _, _, hf, _, _, _, heq => by
    rw [toList_list] at heq
    exact absurd heq (Unbroken.not_cons hf rfl)
  | list _ _, word _, _, _, _, hg, _, _, heq => by
    rw [toList_list] at heq
    exact absurd heq.symm (Unbroken.not_cons hg rfl)
  | list _ _, list _ _, _, _, hf, hg, hrest, hrest', heq => by
    rw [toList_list, toList_list] at heq
    obtain ⟨rfl, htail⟩ := hf.1.eq_of_append hg.1 (closes_tailText _ _).breaks
      (closes_tailText _ _).breaks (List.cons.inj heq).2
    obtain ⟨rfl, hmore⟩ := eq_of_tailText_append hf.2 hg.2 htail
    exact ⟨rfl, hmore⟩
  | word _, signature _ _, _, _, hf, hg, hrest, _, heq => by
    -- The name breaks off before a parenthesis, and behind a form none stands.
    rw [toList_signature] at heq
    obtain ⟨-, rfl⟩ := Unbroken.eq_of_append hf hg.1 hrest.breaks (breaks_cons rfl _) heq
    exact absurd hrest (not_closes_opening _)
  | signature _ _, word _, _, _, hf, hg, _, hrest', heq => by
    rw [toList_signature] at heq
    obtain ⟨-, rfl⟩ := hf.1.eq_of_append hg (breaks_cons rfl _) hrest'.breaks heq
    exact absurd hrest' (not_closes_opening _)
  | list _ _, signature _ _, _, _, _, hg, _, _, heq => by
    rw [toList_list, toList_signature] at heq
    exact absurd heq.symm (hg.1.not_cons rfl)
  | signature _ _, list _ _, _, _, hf, _, _, _, heq => by
    rw [toList_list, toList_signature] at heq
    exact absurd heq (hf.1.not_cons rfl)
  | signature _ _, signature _ _, _, _, hf, hg, _, _, heq => by
    rw [toList_signature, toList_signature] at heq
    obtain ⟨rfl, hparams⟩ :=
      hf.1.eq_of_append hg.1 (breaks_cons rfl _) (breaks_cons rfl _) heq
    obtain ⟨rfl, hmore⟩ := params_eq_of_append hf.2 hg.2 (List.cons.inj hparams).2
    exact ⟨rfl, hmore⟩

theorem eq_of_tailText_append : ∀ {fs gs : List Form} {rest rest' : List Char}, AllSound fs →
    AllSound gs → (tailText fs).toList ++ ')' :: rest = (tailText gs).toList ++ ')' :: rest' →
      fs = gs ∧ rest = rest'
  | [], [], _, _, _, _, heq => ⟨rfl, (List.cons.inj heq).2⟩
  | [], _ :: _, _, _, _, _, heq => by
    rw [toList_tailText_cons] at heq
    exact absurd (List.cons.inj heq).1 (by decide)
  | _ :: _, [], _, _, _, _, heq => by
    rw [toList_tailText_cons] at heq
    exact absurd (List.cons.inj heq).1 (by decide)
  | _ :: _, _ :: _, _, _, hf, hg, heq => by
    rw [toList_tailText_cons, toList_tailText_cons] at heq
    obtain ⟨rfl, htail⟩ := eq_of_append hf.1 hg.1 (closes_tailText _ _) (closes_tailText _ _)
      (List.cons.inj heq).2
    obtain ⟨rfl, hmore⟩ := eq_of_tailText_append hf.2 hg.2 htail
    exact ⟨rfl, hmore⟩

end

/-- No two forms have the same text. -/
theorem eq_of_text_eq {f g : Form} (hf : f.Sound) (hg : g.Sound) (heq : f.text = g.text) :
    f = g := by
  have hnil : Closes [] := fun c hc => nomatch hc
  exact (eq_of_append hf hg hnil hnil (congrArg (·.toList ++ []) heq)).1

end Form

end LoxLang
