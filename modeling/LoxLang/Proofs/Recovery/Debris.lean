import LoxLang.Proofs.Recovery.Advancing
import LoxLang.Proofs.Grammar.Unnumbered

/-!
# Debris

Tokens that no statement can end in or begin in are read as the beginning of one expression
statement. If they are none, then reading fails at one of them or at the token behind them, and goes
on behind the next semicolon or at the next word that begins a statement.

1. `Rule.expressionStatement_debris`: where debris fails.
2. `Rule.declaration_debris`: debris before a semicolon is one declaration that is passed over.
3. `Rule.manyUntil_debris`: what stands before it and behind it is read as if it was not there.
-/

namespace LoxLang

/-- Such a token neither ends a statement nor begins one. -/
def Token.IsPlain (t : Token) : Prop :=
  t.kind ∉ [.eof, .mark .semicolon, .mark .leftBrace, .mark .rightBrace] ∧
    Rule.startsStatement t = false

instance (t : Token) : Decidable t.IsPlain :=
  inferInstanceAs (Decidable (_ ∧ _))

/-- Tokens that hold no statement, and do not go on with the statement before them. -/
structure Debris (ts : List Token) : Prop where
  ne_nil : ts ≠ []
  ne_else : ∀ t ∈ ts.head?, t.kind ≠ .keyword .elseWord
  plain : ∀ t ∈ ts, t.IsPlain

theorem Debris.headD_ne_else {ts : List Token} (h : Debris ts) (us : List Token) :
    ((ts ++ us).headD Cursor.standIn).kind ≠ .keyword .elseWord := by
  cases ts with
  | nil => exact absurd rfl h.ne_nil
  | cons t ts => exact h.ne_else t rfl

theorem Debris.peek_isPlain {ts : List Token} (h : Debris ts) (us : List Token) (n : Nat)
    (es : List GrammarError) : (⟨ts ++ us, n, es⟩ : Cursor).peek.IsPlain := by
  cases ts with
  | nil => exact absurd rfl h.ne_nil
  | cons t ts => exact h.plain t List.mem_cons_self

theorem Token.IsPlain.isEnd_eq {t : Token} (h : t.IsPlain) : t.isEnd = false := by
  simpa [Token.isEnd] using fun hend => h.1 (by simp [hend])

namespace Rule

/-! ## Dropping tokens -/

theorem boundary_semicolon {dropped : Token} (h : dropped.kind = .mark .semicolon)
    (us : List Token) : boundary dropped us = us := by
  cases us with
  | nil => rfl
  | cons u us => simp [boundary, h]

theorem boundary_plain {dropped ahead : Token} {ts : List Token} (hts : ∀ t ∈ ts, t.IsPlain)
    (hdropped : dropped.kind ≠ .mark .semicolon) (us : List Token) :
    ∃ last : Token, last.kind ≠ .mark .semicolon ∧
      boundary dropped (ts ++ ahead :: us) = boundary last (ahead :: us) := by
  induction ts generalizing dropped with
  | nil => exact ⟨dropped, hdropped, rfl⟩
  | cons t ts ih =>
    obtain ⟨⟨hkind, hstarts⟩, hts⟩ := List.forall_mem_cons.1 hts
    simp only [List.mem_cons, List.not_mem_nil, or_false, not_or] at hkind
    obtain ⟨last, hlast, hrest⟩ := ih hts hkind.2.1
    refine ⟨last, hlast, ?_⟩
    rw [← hrest, List.cons_append, boundary]
    simp [Token.isEnd, hkind.1, hdropped, hstarts]

theorem resynchronize_of_ne_end {t : Token} (ht : t.kind ≠ .eof) (us : List Token) (n : Nat)
    (es : List GrammarError) :
    resynchronize ⟨t :: us, n, es⟩ = ⟨boundary t us, n, es⟩ := by
  simp [resynchronize, Cursor.atEnd, peek_cons, Token.isEnd, ht]

/-- Where debris fails before a semicolon, reading goes on behind the semicolon. -/
theorem resynchronize_semicolon {ts : List Token} (hts : ∀ t ∈ ts, t.IsPlain) {semicolon : Token}
    (hs : semicolon.kind = .mark .semicolon) (us : List Token) (n : Nat)
    (es : List GrammarError) :
    resynchronize ⟨ts ++ semicolon :: us, n, es⟩ = ⟨us, n, es⟩ := by
  cases ts with
  | nil =>
    rw [List.nil_append, resynchronize_of_ne_end (by simp [hs]), boundary_semicolon hs]
  | cons t ts =>
    obtain ⟨⟨hkind, -⟩, hts⟩ := List.forall_mem_cons.1 hts
    simp only [List.mem_cons, List.not_mem_nil, or_false, not_or] at hkind
    obtain ⟨last, hlast, hrest⟩ := boundary_plain hts hkind.2.1 us
    have hstarts : startsStatement semicolon = false := by simp [startsStatement, hs]
    rw [List.cons_append, resynchronize_of_ne_end hkind.1, hrest, boundary, if_neg (by
      simp [Token.isEnd, hs, hlast, hstarts]), boundary_semicolon hs]

/-! ## Debris alone -/

/-- Debris is read as the beginning of an expression statement. -/
theorem declaration_of_plain {t : Token} (ht : t.IsPlain) (steps : Nat) {c : Cursor}
    (hc : c.peek = t) :
    declaration (steps + 2) c = recover (expressionStatement steps) c := by
  obtain ⟨hkind, hstarts⟩ := ht
  rw [declaration]
  unfold recover
  rw [run_peek, hc]
  cases hk : t.kind with
  | keyword k =>
    cases k <;> simp [startsStatement, hk] at hstarts <;>
      simp [statement, run_peek, hc, hk]
  | mark m => cases m <;> simp [hk] at hkind <;> simp [statement, run_peek, hc, hk]
  | eof => simp [hk] at hkind
  | identifier => simp [statement, run_peek, hc, hk]
  | number _ => simp [statement, run_peek, hc, hk]
  | string _ => simp [statement, run_peek, hc, hk]

/-- Before a token that no expression has, debris is an expression statement that ends with that
token, or it is none and fails at one of its tokens or at that one; which of it does not depend on
what stands behind, nor on the faults before. -/
theorem expressionStatement_debris {ts : List Token} (hts : ∀ t ∈ ts, t.IsPlain) {ahead : Token}
    (hahead : ahead.kind.delimits) (steps n : Nat) :
    (∀ es us, expressionStatement steps ⟨ts ++ ahead :: us, n, es⟩ = .exhausted) ∨
      (∃ s n' noted, ahead.kind = .mark .semicolon ∧ ∀ es us,
        expressionStatement steps ⟨ts ++ ahead :: us, n, es⟩ = .ok s ⟨us, n', es ++ noted⟩) ∨
      ∃ kept e n' noted, kept <:+ ts ∧ ∀ es us,
        expressionStatement steps ⟨ts ++ ahead :: us, n, es⟩ =
          .fail e ⟨kept ++ ahead :: us, n', es ++ noted⟩ := by
  obtain ⟨reply, hleaves, hrun⟩ := frames_expression steps ts n ahead hahead
  unfold expressionStatement
  cases reply with
  | exhausted => exact .inl fun es us => bind_exhausted (hrun es (ahead :: us) rfl)
  | fail e c =>
    exact .inr (.inr ⟨c.rest, e, c.nextId, c.errors, hleaves, fun es us =>
      bind_fail (hrun es (ahead :: us) rfl)⟩)
  | ok value c =>
    obtain ⟨kept, n', noted⟩ := c
    have hkept : kept <:+ ts := hleaves
    have hexpression (es : List GrammarError) (us : List Token) :
        (expression steps >>= fun value => expect .expressionEnd >>= fun _ =>
            Pure.pure (Stmt.expression value)) ⟨ts ++ ahead :: us, n, es⟩ =
          (expect .expressionEnd >>= fun _ => Pure.pure (Stmt.expression value))
            ⟨kept ++ ahead :: us, n', es ++ noted⟩ :=
      bind_ok (hrun es (ahead :: us) rfl)
    by_cases hend : ((kept ++ [ahead]).headD ahead).kind = .mark .semicolon
    · cases kept with
      | nil =>
        refine .inr (.inl ⟨.expression value, n', noted, hend, fun es us => ?_⟩)
        exact (hexpression es us).trans (run_expect hend)
      | cons t kept =>
        have hplain := (hts t (hkept.subset List.mem_cons_self)).1
        exact absurd (show t.kind = _ from hend) (by simp_all)
    · refine .inr (.inr ⟨kept, ⟨Site.ofToken ((kept ++ [ahead]).headD ahead),
        .missing .expressionEnd⟩, n', noted, hkept, fun es us => ?_⟩)
      rw [hexpression es us]
      refine bind_fail ?_
      cases kept with
      | nil => exact if_neg hend
      | cons t kept => exact if_neg hend

/-! ## Declarations around something else -/

section

variable {p : Kind → Prop} {stops : Token → Bool} {steps : Nat} {vs : List Stmt} {c : Cursor}

/-- What is passed over leaves nothing behind. -/
theorem comesTo_passed {c₀ c₁ : Cursor} (hgo : stops c₀.peek = false)
    (h : (declaration steps c₀).ComesTo (.ok none c₁))
    (hrest : ∀ k, (manyUntil stops (declaration steps) k c₁).ComesTo (.ok vs c)) (k : Nat) :
    (manyUntil stops (declaration steps) k c₀).ComesTo (.ok vs c) := by
  cases k with
  | zero => exact .exhausted _
  | succ k =>
    rw [manyUntil, run_peek, hgo]
    exact (comesTo_bind h).trans ((comesTo_bind (hrest k)).trans (.refl _))

/-- Declarations are read before whatever goes on with none of them. -/
theorem comesTo_declarations (hstop : Grammar.IsStop p stops) {n n' : Nat} {ts rest : List Token}
    {body : List Stmt} {es : List GrammarError} (h : Grammar.Declarations n ts body n')
    (hne : (rest.headD Cursor.standIn).kind ≠ .keyword .elseWord)
    (hrest : ∀ k, (manyUntil stops (declaration steps) k ⟨rest, n', es⟩).ComesTo (.ok vs c))
    (k : Nat) :
    (manyUntil stops (declaration steps) k ⟨ts ++ rest, n, es⟩).ComesTo (.ok (body ++ vs) c) := by
  induction body generalizing n ts k with
  | nil =>
    cases h with
    | nil => exact hrest k
  | cons s body ih =>
    cases h with
    | @cons _ _ _ ts us _ _ h hmore =>
      cases k with
      | zero => exact .exhausted _
      | succ k =>
        have hgo : stops (⟨ts ++ (us ++ rest), n, es⟩ : Cursor).peek = false := by
          obtain ⟨t, ht, hk⟩ := h.begins
          cases ts with
          | nil => simp at ht
          | cons u _ =>
            obtain rfl : u = t := by simpa using ht
            exact hstop.goes u hk
        rw [List.append_assoc, manyUntil, run_peek, hgo]
        refine (comesTo_bind (h.accepted steps _ es (hmore.headD_ne_else hne))).trans ?_
        exact (comesTo_bind (ih hmore k)).trans (.refl _)

end

end Rule

/-! ## Other numbers -/

theorem GrammarError.map_move_on (k : Nat) (es : List GrammarError) :
    es.map (GrammarError.move (.on k)) = es :=
  List.map_id es

theorem Cursor.move_on (c : Cursor) (k : Nat) :
    c.move (.on k) = ⟨c.rest, c.nextId + k, c.errors⟩ := by
  rw [move, Token.map_move_on, GrammarError.map_move_on]
  rfl

namespace Rule.Moves

variable {α β : Type} {r : Rule α} {r' : Rule β} {f : α → β} {k n : Nat} {ts : List Token}
  {es : List GrammarError} {c : Cursor}

/-- What can be read from some number on can be read from a later one, with the same faults. -/
theorem ok_on {v : α} (h : Moves (.on k) f r r') (hrun : r ⟨ts, n, es⟩ = .ok v c) :
    r' ⟨ts, n + k, es⟩ = .ok (f v) ⟨c.rest, c.nextId + k, c.errors⟩ := by
  have hmoved := h ⟨ts, n, es⟩
  rwa [hrun, Cursor.move_on, Reply.move, Cursor.move_on] at hmoved

/-- What cannot be read from some number on cannot be read from a later one, for the same fault. -/
theorem fail_on {e : GrammarError} (h : Moves (.on k) f r r') (hrun : r ⟨ts, n, es⟩ = .fail e c) :
    r' ⟨ts, n + k, es⟩ = .fail e ⟨c.rest, c.nextId + k, c.errors⟩ := by
  have hmoved := h ⟨ts, n, es⟩
  rwa [hrun, Cursor.move_on, Reply.move, Cursor.move_on] at hmoved

end Rule.Moves

namespace Parsed

/-- What is read later in a session differs in its numbers only. -/
theorem ofTokens_on (tokens : List Token) (first k : Nat) :
    ofTokens tokens (first + k) =
      ⟨Stmt.moveAll (.on k) (ofTokens tokens first).statements, (ofTokens tokens first).errors,
        (ofTokens tokens first).nextId + k⟩ := by
  have hmove := ofTokens_move (d := .on k) rfl tokens first
  rw [Token.map_move_on] at hmove
  rw [show first + k = first + (Move.on k).ids from rfl, hmove, move, GrammarError.map_move_on]
  rfl

/-- One declaration and nothing else. -/
theorem ofTokens_single {tokens : List Token} {first next : Nat} {o : Option Stmt}
    {es : List GrammarError} (hgo : (⟨tokens, first, []⟩ : Cursor).atEnd = false)
    (h : Rule.declaration (steps tokens.length) ⟨tokens, first, []⟩ = .ok o ⟨[], next, es⟩) :
    ofTokens tokens first = ⟨o.toList, es, next⟩ := by
  have hrun : Rule.program (steps tokens.length) ⟨tokens, first, []⟩ =
      .ok o.toList ⟨[], next, es⟩ := by
    obtain ⟨k, hk⟩ : ∃ k, steps tokens.length = k + 2 := ⟨4 * tokens.length + 2, by
      rw [steps]
      omega⟩
    unfold Rule.program
    rw [hk] at h ⊢
    rw [Rule.manyUntil, Rule.run_peek, if_neg (by simpa [Cursor.atEnd] using hgo), Rule.bind_ok h]
    exact congrArg (Reply.ok · _) (List.append_nil _)
  rw [ofTokens, hrun]

end Parsed

namespace Rule

section

variable {ts : List Token} (h : Debris ts) {semicolon : Token}
  (hs : semicolon.kind = .mark .semicolon)
include h hs

/-- Debris and a semicolon are one declaration, whatever stands behind them. -/
theorem declaration_before_semicolon {steps : Nat}
    (hsteps : Parsed.steps (ts ++ [semicolon]).length ≤ steps) (n : Nat) :
    ∃ o n' noted, ∀ es us, declaration steps ⟨ts ++ semicolon :: us, n, es⟩ =
      .ok o ⟨us, n', es ++ noted⟩ := by
  have hplain := h.peek_isPlain
  obtain ⟨steps, rfl⟩ : ∃ k, steps = k + 2 := ⟨steps - 2, by
    rw [Parsed.steps] at hsteps
    omega⟩
  have hdeclaration (es : List GrammarError) (us : List Token) :=
    declaration_of_plain (hplain (semicolon :: us) n es) steps rfl
  simp only [hdeclaration, recover]
  rcases expressionStatement_debris h.plain (by rw [hs]; rfl) steps n with
    hrun | ⟨s, n', noted, -, hrun⟩ | ⟨kept, e, n', noted, hkept, hrun⟩
  · -- Debris alone does not exhaust so many steps.
    have henough : 2 * (ts ++ [semicolon]).length + 5 ≤ steps + 2 := by
      rw [Parsed.steps] at hsteps
      simp only [List.length_append, List.length_singleton] at hsteps ⊢
      omega
    obtain ⟨o, c, hends, -⟩ := declaration_ends (hplain [semicolon] n []).isEnd_eq henough
    simp [hdeclaration, recover, hrun] at hends
  · exact ⟨some s, n', noted, fun es us => by rw [hrun]⟩
  · refine ⟨none, n', noted ++ [e], fun es us => ?_⟩
    rw [hrun]
    simp only [Cursor.record]
    rw [resynchronize_semicolon (fun t ht => h.plain t (hkept.subset ht)) hs, List.append_assoc]

/-- Debris and a semicolon, if no statement is read from them, are passed over as one declaration,
with the faults that they have by themselves. -/
theorem declaration_debris (hnone : (Parsed.ofTokens (ts ++ [semicolon]) 0).statements = [])
    (steps n : Nat) (es : List GrammarError) (us : List Token) :
    (declaration steps ⟨ts ++ semicolon :: us, n, es⟩).ComesTo
      (.ok none ⟨us, n + (Parsed.ofTokens (ts ++ [semicolon]) 0).nextId,
        es ++ (Parsed.ofTokens (ts ++ [semicolon]) 0).errors⟩) := by
  obtain ⟨o, n', noted, halone⟩ := declaration_before_semicolon h hs (Nat.le_refl _) 0
  rw [Parsed.ofTokens_single (h.peek_isPlain [semicolon] 0 []).isEnd_eq (halone [] [])] at hnone ⊢
  obtain rfl : o = none := by simpa using hnone
  -- With so many steps, debris is passed over wherever it stands.
  obtain ⟨enough, hle, hsuffice⟩ :
      ∃ m, steps ≤ m ∧ Parsed.steps (ts ++ [semicolon]).length ≤ m :=
    ⟨_, Nat.le_max_left _ _, Nat.le_max_right _ _⟩
  obtain ⟨o, n₁, noted₁, hrun⟩ := declaration_before_semicolon h hs hsuffice n
  have hmoved := ((moves_statement_declaration (d := .on n) rfl enough).2).ok_on
    ((outlasts_declaration hsuffice).ok (halone [] []))
  rw [Nat.zero_add, hrun [] []] at hmoved
  cases hmoved
  refine (outlasts_declaration hle _).trans (.of_eq ?_)
  rw [hrun es us, Nat.add_comm n]
  rfl

/-- Declarations around debris and a semicolon are read as if these were not there, but for the
numbers that they use up and the faults in them. -/
theorem manyUntil_debris (hnone : (Parsed.ofTokens (ts ++ [semicolon]) 0).statements = [])
    {p : Kind → Prop} {stops : Token → Bool} (hstop : Grammar.IsStop p stops)
    (hplain : ∀ t : Token, t.IsPlain → stops t = false) {n n₁ n₂ : Nat} {before behind : List Token}
    {body rest : List Stmt} (hbefore : Grammar.Declarations n before body n₁)
    (hbehind : Grammar.Declarations n₁ behind rest n₂) {us : List Token}
    (hus : p (us.headD Cursor.standIn).kind) (es : List GrammarError) (steps k : Nat) :
    (manyUntil stops (declaration steps) k
        ⟨before ++ (ts ++ semicolon :: (behind ++ us)), n, es⟩).ComesTo
      (.ok (body ++ Stmt.moveAll (.on (Parsed.ofTokens (ts ++ [semicolon]) 0).nextId) rest)
        ⟨us, n₂ + (Parsed.ofTokens (ts ++ [semicolon]) 0).nextId,
          es ++ (Parsed.ofTokens (ts ++ [semicolon]) 0).errors⟩) := by
  refine comesTo_declarations hstop hbefore (h.headD_ne_else _) (fun k => ?_) k
  refine comesTo_passed (hplain _ (h.peek_isPlain _ _ _))
    (declaration_debris h hs hnone steps n₁ es (behind ++ us)) (fun k => ?_) k
  have hmoved := hbehind.move (.on (Parsed.ofTokens (ts ++ [semicolon]) 0).nextId)
  rw [Token.map_move_on] at hmoved
  exact hmoved.accepted hstop steps k us _ hus

end

end Rule

end LoxLang
