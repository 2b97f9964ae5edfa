import LoxLang.Proofs.Grammar.Derivation

/-!
# What rules read

A rule that finds no fault has taken exactly the tokens of one phrase. `Reads` says so of one rule,
and the lemmas here say how it carries over from the parts of a rule to the whole: a rule of the
grammar is then shown to read its nonterminal by naming the parts it is made of.

1. `Reads.bind`: phrases one after another are joined.
2. `reads_manyUntil`, `reads_parenthesized`: phrases that repeat.
-/

namespace LoxLang

namespace Cursor

theorem peek_of_rest {c : Cursor} {t : Token} {rest : List Token} (h : c.rest = t :: rest) :
    c.peek = t := by
  simp [peek, h]

/-- A token that does not end the input is really there, and advancing takes it. -/
theorem rest_of_peek {c : Cursor} (h : c.peek.kind ≠ .eof) : c.rest = c.peek :: c.advance.rest := by
  cases hc : c.rest with
  | nil => simp [peek, hc, standIn] at h
  | cons t rest =>
    have ht : c.peek = t := peek_of_rest hc
    rw [ht] at h
    simp [advance, atEnd, ht, Token.isEnd, h, hc]

@[simp] theorem advance_nextId (c : Cursor) : c.advance.nextId = c.nextId := by
  unfold advance
  split <;> rfl

@[simp] theorem advance_errors (c : Cursor) : c.advance.errors = c.errors := by
  unfold advance
  split <;> rfl

end Cursor

namespace Awaited

/-- The end of the input is never awaited. -/
theorem kind_ne_eof (a : Awaited) : a.kind ≠ .eof := by
  cases a <;> simp [kind]

end Awaited

namespace Level

/-- The level has operators that do not end the input, and it builds nothing that could be assigned
to. -/
def Proper (level : Level) : Prop :=
  .eof ∉ level.operators ∧
    ∀ left operator right, level.build left operator right = .binary left operator right ∨
      level.build left operator right = .logical left operator right

theorem proper_of_mem_all {level : Level} (h : level ∈ all) : level.Proper := by
  simp only [all, List.mem_cons, List.not_mem_nil, or_false] at h
  rcases h with rfl | rfl | rfl | rfl | rfl | rfl <;> simp [Proper]

end Level

namespace Rule

variable {α β : Type}

theorem bind_ok {first : Rule α} {next : α → Rule β} {c c' : Cursor} {v : α}
    (h : first c = .ok v c') : (first >>= next) c = next v c' := by
  show Rule.bind first next c = _
  simp [Rule.bind, h]

theorem bind_fail {first : Rule α} {next : α → Rule β} {c c' : Cursor} {e : GrammarError}
    (h : first c = .fail e c') : (first >>= next) c = .fail e c' := by
  show Rule.bind first next c = _
  simp [Rule.bind, h]

theorem bind_exhausted {first : Rule α} {next : α → Rule β} {c : Cursor}
    (h : first c = .exhausted) : (first >>= next) c = .exhausted := by
  show Rule.bind first next c = _
  simp [Rule.bind, h]

theorem take?_of_mem {kinds : List Kind} {c : Cursor} (h : c.peek.kind ∈ kinds) :
    take? kinds c = .ok (some c.peek) c.advance := by
  simp [take?, h]

theorem take?_of_not_mem {kinds : List Kind} {c : Cursor} (h : c.peek.kind ∉ kinds) :
    take? kinds c = .ok none c := by
  simp [take?, h]

theorem expect_of_kind {a : Awaited} {c : Cursor} (h : c.peek.kind = a.kind) :
    expect a c = .ok c.peek c.advance := by
  simp [expect, h]

/-- What a rule reads: the token ahead of it when it is done, the first free number, the tokens
taken, the value, the next free number. -/
abbrev Phrase (α : Type) : Type :=
  Token → Nat → List Token → α → Nat → Prop

/-- A reply to a cursor that keeps all faults noted before; and if it notes no other, the tokens
taken are a phrase `P`, and none of them ends the input. -/
def IsReading (c : Cursor) (P : Phrase α) : Reply α → Prop
  | .ok value c' =>
    c.errors <+: c'.errors ∧
      (c'.errors = c.errors → ∃ ts, c.rest = ts ++ c'.rest ∧ (∀ t ∈ ts, t.kind ≠ .eof) ∧
        P c'.peek c.nextId ts value c'.nextId)
  | .fail _ c' => c.errors <+: c'.errors
  | .exhausted => True

/-- The rule `r` reads a phrase `P`, or it notes a fault. -/
def Reads (r : Rule α) (P : Phrase α) : Prop :=
  ∀ c : Cursor, IsReading c P (r c)

theorem Reads.mono {r : Rule α} {P Q : Phrase α} (h : Reads r P)
    (hP : ∀ {t n ts v n'}, P t n ts v n' → Q t n ts v n') : Reads r Q := by
  intro c
  have hr := h c
  cases hv : r c with
  | ok v c' =>
    rw [hv] at hr
    refine ⟨hr.1, fun hn => ?_⟩
    obtain ⟨ts, ht, hend, hv⟩ := hr.2 hn
    exact ⟨ts, ht, hend, hP hv⟩
  | fail e c' =>
    rw [hv] at hr
    exact hr
  | exhausted => trivial

theorem reads_pure {R : Phrase α} {value : α} (h : ∀ t n, R t n [] value n) :
    Reads (Pure.pure value : Rule α) R :=
  fun c => ⟨List.prefix_refl _, fun _ => ⟨[], rfl, by simp, h c.peek c.nextId⟩⟩

theorem reads_exhausted {R : Phrase α} : Reads exhausted R :=
  fun _ => trivial

theorem reads_fail {R : Phrase α} (fault : GrammarFault) : Reads (fail fault) R :=
  fun _ => List.prefix_refl _

/-- A rule that notes a fault reads nothing that is free of faults. -/
theorem reads_record {R : Phrase Unit} (site : Site) (fault : GrammarFault) :
    Reads (record site fault) R := by
  intro _
  exact ⟨List.prefix_append _ _, fun h => absurd h (by simp [Cursor.record])⟩

/-- Phrases one after another: what follows completes the phrase that the first part began. -/
theorem Reads.bind {first : Rule α} {next : α → Rule β} {P : Phrase α} {R : Phrase β}
    (h : Reads first P)
    (hnext : ∀ v, Reads (next v) fun t n₁ us w n' =>
      ∀ n ts, P (us.headD t) n ts v n₁ → R t n (ts ++ us) w n') :
    Reads (first >>= next) R := by
  intro c
  have h₁ : IsReading c P (first c) := h c
  cases hf : first c with
  | ok v c₁ =>
    rw [hf] at h₁
    rw [bind_ok hf]
    have h₂ := hnext v c₁
    cases hv : next v c₁ with
    | ok w c₂ =>
      rw [hv] at h₂
      refine ⟨h₁.1.trans h₂.1, fun hn => ?_⟩
      have hmid : c₁.errors = c.errors :=
        (h₁.1.eq_of_length_le (hn ▸ h₂.1.length_le)).symm
      obtain ⟨ts₁, hr₁, he₁, hP⟩ := h₁.2 hmid
      obtain ⟨ts₂, hr₂, he₂, hR⟩ := h₂.2 (hn.trans hmid.symm)
      have hahead : ts₂.headD c₂.peek = c₁.peek := by
        cases ts₂ <;> simp [Cursor.peek, hr₂]
      exact ⟨ts₁ ++ ts₂, by rw [hr₁, hr₂, List.append_assoc],
        List.forall_mem_append.2 ⟨he₁, he₂⟩, hR _ _ (hahead ▸ hP)⟩
    | fail e c₂ =>
      rw [hv] at h₂
      exact h₁.1.trans h₂
    | exhausted => trivial
  | fail e c₁ =>
    rw [hf] at h₁
    rw [bind_fail hf]
    exact h₁
  | exhausted =>
    rw [bind_exhausted hf]
    trivial

/-- Taking the next token begins a phrase with it. -/
theorem isReading_advance {c : Cursor} {r : Rule β} {R : Phrase β} (hc : c.peek.kind ≠ .eof)
    (h : Reads r fun t n us v n' => R t n (c.peek :: us) v n') : IsReading c R (r c.advance) := by
  have hrest := Cursor.rest_of_peek hc
  have hr := h c.advance
  cases hv : r c.advance with
  | ok v c' =>
    simp only [hv, IsReading, Cursor.advance_errors, Cursor.advance_nextId] at hr
    refine ⟨hr.1, fun he => ?_⟩
    obtain ⟨ts, ht, hend, hR⟩ := hr.2 he
    exact ⟨c.peek :: ts, by rw [hrest, ht, List.cons_append],
      List.forall_mem_cons.2 ⟨hc, hend⟩, hR⟩
  | fail e c' => simpa [hv, IsReading] using hr
  | exhausted => trivial

/-- A rule may look at the next token and then, depending on it, take it or go on without. -/
theorem reads_peek_bind {next : Token → Rule β} {R : Phrase β}
    (h : ∀ t, Reads (next t) R ∨
      ∃ r : Rule β, next t = (advance >>= fun _ => r) ∧ t.kind ≠ .eof ∧
        Reads r fun t' n us v n' => R t' n (t :: us) v n') : Reads (peek >>= next) R := by
  intro c
  rcases h c.peek with hr | ⟨r, hnext, hend, hr⟩
  · exact hr c
  · have hrun : (peek >>= next) c = r c.advance := by
      show next c.peek c = _
      rw [hnext]
      rfl
    rw [hrun]
    exact isReading_advance hend hr

theorem reads_freshId_bind {next : Nat → Rule β} {R : Phrase β}
    (h : ∀ id, Reads (next id) fun t n us v n' => n = id + 1 → R t id us v n') :
    Reads (freshId >>= next) R := by
  refine Reads.bind (P := fun _ n ts v n' => ts = [] ∧ v = n ∧ n' = n + 1)
    (fun _ => ⟨List.prefix_refl _, fun _ => ⟨[], rfl, by simp, rfl, rfl, rfl⟩⟩)
    fun id => (h id).mono ?_
  rintro t n₁ us w n' hR n ts ⟨rfl, rfl, rfl⟩
  exact hR rfl

theorem reads_expect (a : Awaited) :
    Reads (expect a) fun _ n ts t n' => n' = n ∧ ts = [t] ∧ t.kind = a.kind := by
  intro c
  unfold expect
  by_cases hk : c.peek.kind = a.kind
  · have hend : c.peek.kind ≠ .eof := hk ▸ a.kind_ne_eof
    rw [if_pos hk]
    exact ⟨by simp, fun _ => ⟨[c.peek], Cursor.rest_of_peek hend, by simpa using hend,
      Cursor.advance_nextId c, rfl, hk⟩⟩
  · rw [if_neg hk]
    exact List.prefix_refl _

theorem reads_expect_bind {a : Awaited} {next : Token → Rule β} {R : Phrase β}
    (h : ∀ t, t.kind = a.kind → Reads (next t) fun t' n us v n' => R t' n (t :: us) v n') :
    Reads (expect a >>= next) R := by
  intro c
  by_cases hk : c.peek.kind = a.kind
  · rw [bind_ok (expect_of_kind hk)]
    exact isReading_advance (hk ▸ a.kind_ne_eof) (h c.peek hk)
  · have hrun : (expect a >>= next) c = .fail ⟨Site.ofToken c.peek, .missing a⟩ c := by
      rw [bind_fail]
      simp [expect, hk, fail]
    rw [hrun]
    exact List.prefix_refl _

/-- A token of some kinds is taken, or the phrase goes on before a token of another kind. -/
theorem reads_take?_or_else {kinds : List Kind} (hk : .eof ∉ kinds)
    {next : Option Token → Rule β} {R : Phrase β}
    (hsome : ∀ t, t.kind ∈ kinds →
      Reads (next (some t)) fun t' n us v n' => R t' n (t :: us) v n')
    (hnone : Reads (next none) fun t n us v n' => (us.headD t).kind ∉ kinds → R t n us v n') :
    Reads (take? kinds >>= next) R := by
  intro c
  by_cases hc : c.peek.kind ∈ kinds
  · rw [bind_ok (take?_of_mem hc)]
    exact isReading_advance (fun he => hk (he ▸ hc)) (hsome c.peek hc)
  · rw [bind_ok (take?_of_not_mem hc)]
    have hr := hnone c
    cases hv : next none c with
    | ok v c' =>
      rw [hv] at hr
      refine ⟨hr.1, fun hn => ?_⟩
      obtain ⟨ts, ht, hend, hR⟩ := hr.2 hn
      have hahead : ts.headD c'.peek = c.peek := by
        cases ts <;> simp [Cursor.peek, ht]
      exact ⟨ts, ht, hend, hR (hahead ▸ hc)⟩
    | fail e c' =>
      rw [hv] at hr
      exact hr
    | exhausted => trivial

theorem reads_take?_bind {kinds : List Kind} (hk : .eof ∉ kinds) {next : Option Token → Rule β}
    {R : Phrase β}
    (hsome : ∀ t, t.kind ∈ kinds →
      Reads (next (some t)) fun t' n us v n' => R t' n (t :: us) v n')
    (hnone : Reads (next none) R) : Reads (take? kinds >>= next) R :=
  reads_take?_or_else hk hsome (hnone.mono fun hR _ => hR)

theorem reads_unlessNext {kind : Kind} {phrase : Rule α} {P : Phrase α} {R : Phrase (Option α)}
    (h : Reads phrase P) (hnone : ∀ t n, R t n [] none n)
    (hsome : ∀ {t n ts v n'}, P t n ts v n' → R t n ts (some v) n') :
    Reads (unlessNext kind phrase) R := by
  refine reads_peek_bind fun t => .inl ?_
  split
  · exact reads_pure hnone
  · refine h.bind fun v => reads_pure fun t n' n ts hP => ?_
    simpa using hsome hP

/-- A list of phrases `P` with commas between them is a phrase `Q` that grows with each of them; it
is not too long if no fault was noted. -/
theorem reads_commaSeparated {listed : Listed} {phrase : Rule α}
    {P : Nat → List Token → α → Nat → Prop} {Q : Nat → List Token → List α → Nat → Prop}
    (h : Reads phrase fun _ => P)
    (one : ∀ {n ts v n'}, P n ts v n' → Q n ts [v] n')
    (more : ∀ {n ts v n₁ comma us vs n'}, P n ts v n₁ → comma.kind = .mark .comma →
      Q n₁ us vs n' → Q n (ts ++ comma :: us) (v :: vs) n')
    (steps count : Nat) :
    Reads (commaSeparated listed phrase steps count)
      (fun _ n ts vs n' => Q n ts vs n' ∧ count + vs.length ≤ maxArity) := by
  induction steps generalizing count with
  | zero => exact reads_exhausted
  | succ steps ih =>
    have hlimit : Reads (limit listed count)
        (fun _ n ts _ n' => ts = [] ∧ n' = n ∧ count < maxArity) := by
      refine reads_peek_bind fun t => .inl ?_
      split
      · exact reads_record _ _
      · exact reads_pure fun _ n => ⟨rfl, rfl, by omega⟩
    refine hlimit.bind fun _ => h.bind fun first => reads_take?_bind (by simp) ?_ ?_
    · intro comma hc
      refine (ih (count + 1)).bind fun others => reads_pure ?_
      rintro _ n' n₂ us ⟨hQ, hl⟩ n₁ ts hP n _ ⟨rfl, rfl, -⟩
      exact ⟨by simpa using more hP (by simpa using hc) hQ, by simp; omega⟩
    · refine reads_pure ?_
      rintro _ n' n₁ ts hP n _ ⟨rfl, rfl, hl⟩
      exact ⟨by simpa using one hP, by simp; omega⟩

/-- A list in parentheses, which may be empty. -/
theorem reads_parenthesized {listed : Listed} {phrase : Rule α}
    {P : Nat → List Token → α → Nat → Prop} {Q R : Nat → List Token → List α → Nat → Prop}
    (h : Reads phrase fun _ => P)
    (one : ∀ {n ts v n'}, P n ts v n' → Q n ts [v] n')
    (more : ∀ {n ts v n₁ comma us vs n'}, P n ts v n₁ → comma.kind = .mark .comma →
      Q n₁ us vs n' → Q n (ts ++ comma :: us) (v :: vs) n')
    (none : ∀ n, R n [] [] n)
    (some : ∀ {n ts vs n'}, Q n ts vs n' → vs.length ≤ maxArity → R n ts vs n') (steps : Nat) :
    Reads (parenthesized listed phrase steps) fun _ => R := by
  have hlist : Reads (unlessNext (.mark .rightParen) (commaSeparated listed phrase steps 0))
      (fun _ n ts o n' => R n ts (o.getD []) n') :=
    reads_unlessNext (reads_commaSeparated h one more steps 0) (fun _ => none)
      fun ⟨hQ, hl⟩ => some hQ (by simpa using hl)
  refine hlist.bind fun o => reads_pure fun _ n' n ts hR => ?_
  simpa using hR

/-- Phrases one after another up to a stop are a phrase `Q` that grows with each of them. -/
theorem reads_manyUntil {stops : Token → Bool} {phrase : Rule (Option α)}
    {P : Nat → List Token → α → Nat → Prop} {Q : Nat → List Token → List α → Nat → Prop}
    (h : Reads phrase fun _ n ts o n' => ∃ v, o = some v ∧ P n ts v n')
    (nil : ∀ n, Q n [] [] n)
    (cons : ∀ {n ts v n₁ us vs n'}, P n ts v n₁ → Q n₁ us vs n' → Q n (ts ++ us) (v :: vs) n')
    (steps : Nat) : Reads (manyUntil stops phrase steps) fun _ => Q := by
  induction steps with
  | zero => exact reads_exhausted
  | succ steps ih =>
    refine reads_peek_bind fun t => .inl ?_
    split
    · exact reads_pure fun _ => nil
    · refine h.bind fun first => ih.bind fun others => reads_pure ?_
      rintro _ n' n₁ us hQ n ts ⟨v, rfl, hP⟩
      simpa using cons hP hQ

@[simp] theorem resynchronize_errors (c : Cursor) : (resynchronize c).errors = c.errors := by
  unfold resynchronize
  split <;> rfl

/-- A phrase that is passed over leaves a fault behind. -/
theorem reads_recover {phrase : Rule α} {P : Phrase α} (h : Reads phrase P) :
    Reads (recover phrase) fun t n ts o n' => ∃ v, o = some v ∧ P t n ts v n' := by
  intro c
  have hr := h c
  unfold recover
  cases hv : phrase c with
  | ok v c' =>
    rw [hv] at hr
    refine ⟨hr.1, fun hn => ?_⟩
    obtain ⟨ts, ht, hend, hP⟩ := hr.2 hn
    exact ⟨ts, ht, hend, v, rfl, hP⟩
  | fail e c' =>
    rw [hv] at hr
    have hgrow : (resynchronize (c'.record e)).errors = c'.errors ++ [e] := by
      simp [Cursor.record]
    simp only [IsReading, hgrow]
    refine ⟨hr.trans (List.prefix_append _ _), fun hn => ?_⟩
    have hlen := hr.length_le
    rw [← hn, List.length_append, List.length_singleton] at hlen
    omega
  | exhausted => trivial

end Rule

end LoxLang
