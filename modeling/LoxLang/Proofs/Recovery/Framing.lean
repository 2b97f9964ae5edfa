import LoxLang.Proofs.Grammar.Completeness.Expressions
import LoxLang.Proofs.Grammar.Progress

/-!
# What rules do not look at

A rule looks at the next token only, and it looks back at nothing. So it comes to the same whatever
stands behind a token that it does not take, and whatever faults were noted before.

1. `Rule.frames_expression`: an expression is not read beyond a token that no expression has.
2. `Rule.frames_expressionStatement`, `Rule.frames_variableDeclaration`: statements in which no
   other statement stands are not read beyond a brace.
3. `Rule.framesEnd_declaration`, `Rule.framesEnd_program`: nothing is read beyond the end.
-/

namespace LoxLang

namespace Kind

/-- No expression has a token of this kind in it. -/
def delimits : Kind → Bool
  | .eof | .mark .semicolon | .mark .leftBrace | .mark .rightBrace => true
  | .keyword k =>
    match k with
    | .classWord | .elseWord | .funWord | .forWord => true
    | .ifWord | .printWord | .returnWord | .varWord | .whileWord => true
    | _ => false
  | _ => false

/-- Such a token ends everything but what stands between braces. -/
def Encloses (k : Kind) : Prop :=
  k = .eof ∨ k = .mark .leftBrace

theorem Encloses.delimits {k : Kind} (h : k.Encloses) : k.delimits := by
  rcases h with rfl | rfl <;> rfl

end Kind

namespace Reply

variable {α : Type}

/-- The reply with more tokens behind those that are left, and more faults before those noted. -/
def framed (es : List GrammarError) (us : List Token) : Reply α → Reply α
  | .ok value c => .ok value ⟨c.rest ++ us, c.nextId, es ++ c.errors⟩
  | .fail e c => .fail e ⟨c.rest ++ us, c.nextId, es ++ c.errors⟩
  | .exhausted => .exhausted

/-- What is left are the last of these tokens. -/
def Leaves (ts : List Token) : Reply α → Prop
  | .ok _ c => c.rest <:+ ts
  | .fail _ c => c.rest <:+ ts
  | .exhausted => True

theorem framed_framed (reply : Reply α) (es es' : List GrammarError) (us us' : List Token) :
    (reply.framed es' us').framed es us = reply.framed (es ++ es') (us' ++ us) := by
  cases reply <;> simp [framed]

theorem Leaves.trans {ts ts' : List Token} {reply : Reply α} (h : reply.Leaves ts')
    (hts : ts' <:+ ts) : reply.Leaves ts := by
  cases reply with
  | ok _ c => exact List.IsSuffix.trans h hts
  | fail _ c => exact List.IsSuffix.trans h hts
  | exhausted => trivial

theorem leaves_framed {ts : List Token} {reply : Reply α} (h : reply.Leaves ts)
    (es : List GrammarError) : (reply.framed es []).Leaves ts := by
  cases reply with
  | ok _ c => simpa [framed, Leaves] using h
  | fail _ c => simpa [framed, Leaves] using h
  | exhausted => trivial

end Reply

namespace Rule

variable {α β : Type} {p : Kind → Prop}

/-- In front of a token of such a kind, what the rule comes to does not depend on what stands behind
that token, nor on the faults before; and that token is not taken. -/
def Frames (p : Kind → Prop) (r : Rule α) : Prop :=
  ∀ (ts : List Token) (n : Nat) (ahead : Token), p ahead.kind → ∃ reply : Reply α,
    reply.Leaves ts ∧ ∀ es us, us.headD Cursor.standIn = ahead →
      r ⟨ts ++ us, n, es⟩ = reply.framed es us

theorem Frames.mono {q : Kind → Prop} {r : Rule α} (h : Frames p r) (hq : ∀ k, q k → p k) :
    Frames q r :=
  fun ts n ahead hahead => h ts n ahead (hq _ hahead)

theorem frames_pure (value : α) : Frames p (Pure.pure value : Rule α) :=
  fun ts n _ _ => ⟨.ok value ⟨ts, n, []⟩, List.suffix_refl ts, fun es us _ => by
    simp only [Reply.framed, List.append_nil]
    rfl⟩

theorem frames_exhausted : Frames p (exhausted : Rule α) :=
  fun _ _ _ _ => ⟨.exhausted, trivial, fun _ _ _ => rfl⟩

theorem frames_record (site : Site) (fault : GrammarFault) : Frames p (record site fault) :=
  fun ts n _ _ => ⟨.ok () ⟨ts, n, [⟨site, fault⟩]⟩, List.suffix_refl ts, fun _ _ _ => rfl⟩

theorem frames_freshId : Frames p freshId :=
  fun ts n _ _ => ⟨.ok n ⟨ts, n + 1, []⟩, List.suffix_refl ts, fun es us _ => by
    simp [Reply.framed, freshId]⟩

theorem frames_fail (fault : GrammarFault) : Frames p (fail fault : Rule α) := by
  intro ts n ahead _
  refine ⟨.fail ⟨Site.ofToken (ts.headD ahead), fault⟩ ⟨ts, n, []⟩, List.suffix_refl ts, ?_⟩
  rintro es us rfl
  cases ts <;> simp [fail, Reply.framed, Cursor.peek]

theorem Frames.bind {first : Rule α} {next : α → Rule β} (h : Frames p first)
    (hnext : ∀ v, Frames p (next v)) : Frames p (first >>= next) := by
  intro ts n ahead hahead
  obtain ⟨reply, hleaves, hfirst⟩ := h ts n ahead hahead
  cases reply with
  | ok v c =>
    obtain ⟨reply, hleaves', hrun⟩ := hnext v c.rest c.nextId ahead hahead
    refine ⟨reply.framed c.errors [], Reply.leaves_framed (hleaves'.trans hleaves) _, ?_⟩
    intro es us hus
    rw [bind_ok (hfirst es us hus), hrun _ us hus, Reply.framed_framed, List.nil_append]
  | fail e c => exact ⟨.fail e c, hleaves, fun es us hus => bind_fail (hfirst es us hus)⟩
  | exhausted => exact ⟨.exhausted, trivial, fun es us hus => bind_exhausted (hfirst es us hus)⟩

/-- A phrase of which something is made. -/
theorem Frames.map {r : Rule α} (h : Frames p r) (make : α → β) :
    Frames p (r >>= fun v => Pure.pure (make v)) :=
  h.bind fun _ => frames_pure _

/-- A token that is taken is none of those that the rule leaves alone. -/
theorem frames_take? {kinds : List Kind} (hk : ∀ k ∈ kinds, k ≠ .eof ∧ ¬p k) :
    Frames p (take? kinds) := by
  intro ts n ahead hahead
  have hnone (rest : List Token) (hpeek : (rest.headD ahead).kind ∉ kinds) :
      ∀ es us, us.headD Cursor.standIn = ahead →
        take? kinds ⟨rest ++ us, n, es⟩ = (Reply.ok none ⟨rest, n, []⟩).framed es us := by
    rintro es us rfl
    rw [take?_of_not_mem]
    · simp [Reply.framed]
    · cases rest with
      | nil => exact hpeek
      | cons t rest => exact hpeek
  cases ts with
  | nil =>
    exact ⟨.ok none ⟨[], n, []⟩, List.suffix_refl _, hnone [] fun hmem => (hk _ hmem).2 hahead⟩
  | cons t ts =>
    by_cases hmem : t.kind ∈ kinds
    · refine ⟨.ok (some t) ⟨ts, n, []⟩, List.suffix_cons t ts, fun es us _ => ?_⟩
      rw [take?_of_mem (by exact hmem), List.cons_append, advance_cons (hk _ hmem).1, peek_cons]
      simp [Reply.framed]
    · exact ⟨.ok none ⟨t :: ts, n, []⟩, List.suffix_refl _, hnone (t :: ts) hmem⟩

theorem frames_expect {a : Awaited} (ha : ¬p a.kind) : Frames p (expect a) := by
  intro ts n ahead hahead
  obtain ⟨missing, hleaves, hmissing⟩ :=
    frames_fail (α := Token) (.missing a) ts n ahead hahead
  cases ts with
  | nil =>
    refine ⟨missing, hleaves, fun es us hus => ?_⟩
    rw [← hmissing es us hus]
    have hpeek : (⟨[] ++ us, n, es⟩ : Cursor).peek.kind ≠ a.kind := by
      intro hkind
      rw [← hus] at hahead
      exact ha (hkind ▸ hahead)
    exact if_neg hpeek
  | cons t ts =>
    by_cases hkind : t.kind = a.kind
    · refine ⟨.ok t ⟨ts, n, []⟩, List.suffix_cons t ts, fun es us _ => ?_⟩
      rw [expect_of_kind (by exact hkind), List.cons_append,
        advance_cons (hkind ▸ a.kind_ne_eof), peek_cons]
      simp [Reply.framed]
    · exact ⟨missing, hleaves, fun es us hus => by
        rw [← hmissing es us hus]
        exact if_neg hkind⟩

/-- A rule may look at the next token and then, depending on it, take it or go on without. -/
theorem frames_peek_bind {next : Token → Rule β}
    (h : ∀ t, Frames p (next t) ∨
      ∃ r : Rule β, next t = (advance >>= fun _ => r) ∧ (t.kind ≠ .eof ∧ ¬p t.kind) ∧
        Frames p r) : Frames p (peek >>= next) := by
  intro ts n ahead hahead
  have hahead' (us : List Token) (hus : us.headD Cursor.standIn = ahead) :
      (ts ++ us).headD Cursor.standIn = ts.headD ahead := by
    subst hus
    cases ts <;> rfl
  rcases h (ts.headD ahead) with hr | ⟨r, hnext, ⟨hend, htaken⟩, hr⟩
  · obtain ⟨reply, hleaves, hrun⟩ := hr ts n ahead hahead
    refine ⟨reply, hleaves, fun es us hus => ?_⟩
    rw [← hrun es us hus, run_peek, Cursor.peek, hahead' us hus]
  · cases ts with
    | nil => exact absurd hahead htaken
    | cons t ts =>
      obtain ⟨reply, hleaves, hrun⟩ := hr ts n ahead hahead
      refine ⟨reply, hleaves.trans (List.suffix_cons t ts), fun es us hus => ?_⟩
      rw [← hrun es us hus, run_peek, Cursor.peek, hahead' us hus, hnext, List.cons_append,
        run_advance (by exact hend)]

theorem frames_unlessNext {phrase : Rule α} (h : Frames p phrase) (kind : Kind) :
    Frames p (unlessNext kind phrase) := by
  refine frames_peek_bind fun t => .inl ?_
  split
  · exact frames_pure none
  · exact h.map _

theorem frames_limit (listed : Listed) (count : Nat) : Frames p (limit listed count) := by
  refine frames_peek_bind fun t => .inl ?_
  split
  · exact frames_record _ _
  · exact frames_pure ()

theorem frames_commaSeparated {listed : Listed} {phrase : Rule α} (h : Frames p phrase)
    (hcomma : ¬p (.mark .comma)) (steps count : Nat) :
    Frames p (commaSeparated listed phrase steps count) := by
  induction steps generalizing count with
  | zero => exact frames_exhausted
  | succ steps ih =>
    refine (frames_limit listed count).bind fun _ => h.bind fun first =>
      (frames_take? (by simpa using hcomma)).bind fun comma => ?_
    cases comma with
    | none => exact frames_pure _
    | some _ => exact (ih (count + 1)).map _

theorem frames_parenthesized {listed : Listed} {phrase : Rule α} (h : Frames p phrase)
    (hcomma : ¬p (.mark .comma)) (steps : Nat) : Frames p (parenthesized listed phrase steps) :=
  (frames_unlessNext (frames_commaSeparated h hcomma steps 0) _).map _

theorem frames_manyUntil {stops : Token → Bool} {phrase : Rule (Option α)} (h : Frames p phrase)
    (steps : Nat) : Frames p (manyUntil stops phrase steps) := by
  induction steps with
  | zero => exact frames_exhausted
  | succ steps ih =>
    refine frames_peek_bind fun t => .inl ?_
    split
    · exact frames_pure []
    · exact h.bind fun first => ih.map _

/-! ## Expressions -/

theorem Level.not_delimits {level : Level} (h : level ∈ Level.all) :
    ∀ k ∈ level.operators, k ≠ .eof ∧ ¬(k.delimits : Prop) := by
  simp only [Level.all, List.mem_cons, List.not_mem_nil, or_false] at h
  rcases h with rfl | rfl | rfl | rfl | rfl | rfl <;> simp [Kind.delimits]

theorem frames_chainFrom {level : Level} (hl : ∀ k ∈ level.operators, k ≠ .eof ∧ ¬p k)
    {operand : Rule Expr} (h : Frames p operand) (steps : Nat) (left : Expr) :
    Frames p (chainFrom level operand steps left) := by
  induction steps generalizing left with
  | zero => exact frames_exhausted
  | succ steps ih =>
    refine (frames_take? hl).bind fun operator => ?_
    cases operator with
    | none => exact frames_pure left
    | some operator => exact h.bind fun right => ih _

theorem frames_chains {levels : List Level}
    (hl : ∀ level ∈ levels, ∀ k ∈ level.operators, k ≠ .eof ∧ ¬p k) {operand : Rule Expr}
    (h : Frames p operand) (steps : Nat) : Frames p (chains levels operand steps) := by
  induction levels with
  | nil => exact h
  | cons level levels ih =>
    obtain ⟨hlevel, htighter⟩ := List.forall_mem_cons.1 hl
    exact (ih htighter).bind fun left => frames_chainFrom hlevel (ih htighter) steps left

theorem frames_assignTo (target : Expr) (equals : Token) (value : Expr) :
    Frames p (assignTo target equals value) := by
  unfold assignTo
  split
  · exact frames_freshId.map _
  · exact frames_pure _
  · exact (frames_record _ _).map fun _ => _

theorem frames_primary {expression : Rule Expr} (h : Frames (·.delimits) expression) :
    Frames (·.delimits) (primary expression) := by
  refine frames_peek_bind fun t => ?_
  split
  · next hk => exact .inr ⟨_, rfl, by simp [hk, Kind.delimits], frames_pure _⟩
  · next hk => exact .inr ⟨_, rfl, by simp [hk, Kind.delimits], frames_pure _⟩
  · next hk => exact .inr ⟨_, rfl, by simp [hk, Kind.delimits], frames_pure _⟩
  · next hk => exact .inr ⟨_, rfl, by simp [hk, Kind.delimits], frames_pure _⟩
  · next hk => exact .inr ⟨_, rfl, by simp [hk, Kind.delimits], frames_pure _⟩
  · next hk =>
    exact .inr ⟨_, rfl, by simp [hk, Kind.delimits], (frames_expect (by decide)).bind fun _ =>
      (frames_expect (by decide)).bind fun _ => frames_freshId.map _⟩
  · next hk => exact .inr ⟨_, rfl, by simp [hk, Kind.delimits], frames_freshId.map _⟩
  · next hk => exact .inr ⟨_, rfl, by simp [hk, Kind.delimits], frames_freshId.map _⟩
  · next hk =>
    exact .inr ⟨_, rfl, by simp [hk, Kind.delimits], h.bind fun _ =>
      (frames_expect (by decide)).map fun _ => _⟩
  · exact .inl (frames_fail _)

theorem frames_accesses {expression : Rule Expr} (h : Frames (·.delimits) expression)
    (steps : Nat) (object : Expr) : Frames (·.delimits) (accesses expression steps object) := by
  induction steps generalizing object with
  | zero => exact frames_exhausted
  | succ steps ih =>
    refine (frames_take? (by simp [Kind.delimits])).bind fun opening => ?_
    cases opening with
    | some _ =>
      exact (frames_parenthesized h (by decide) steps).bind fun _ =>
        (frames_expect (by decide)).bind fun _ => ih _
    | none =>
      refine (frames_take? (by simp [Kind.delimits])).bind fun dot => ?_
      cases dot with
      | some _ => exact (frames_expect (by decide)).bind fun _ => ih _
      | none => exact frames_pure object

theorem frames_expression_unary (steps : Nat) :
    Frames (·.delimits) (expression steps) ∧ Frames (·.delimits) (unary steps) := by
  induction steps with
  | zero => exact ⟨frames_exhausted, frames_exhausted⟩
  | succ steps ih =>
    constructor
    · refine (frames_chains (fun _ => Level.not_delimits) ih.2 steps).bind fun left =>
        (frames_take? (by simp [Kind.delimits])).bind fun equals => ?_
      cases equals with
      | none => exact frames_pure left
      | some equals => exact ih.1.bind fun value => frames_assignTo left equals value
    · refine (frames_take? (by simp [Kind.delimits])).bind fun operator => ?_
      cases operator with
      | some operator => exact ih.2.map _
      | none =>
        exact (frames_primary ih.1).bind fun object => frames_accesses ih.1 steps object

/-- An expression is read in the same way whatever stands behind the token that delimits it. -/
theorem frames_expression (steps : Nat) : Frames (·.delimits) (expression steps) :=
  (frames_expression_unary steps).1

/-! ## Statements without other statements in them -/

section

variable (steps : Nat)

theorem frames_enclosed_expression : Frames Kind.Encloses (expression steps) :=
  (frames_expression steps).mono fun _ => Kind.Encloses.delimits

theorem frames_clause (kind : Kind) : Frames Kind.Encloses (unlessNext kind (expression steps)) :=
  frames_unlessNext (frames_enclosed_expression steps) kind

/-- No awaited token but the brace before a body ends anything. -/
theorem frames_awaited {a : Awaited} (ha : a.kind ≠ .mark .leftBrace) :
    Frames Kind.Encloses (expect a) :=
  frames_expect fun h => h.elim a.kind_ne_eof ha

theorem frames_variableDeclaration : Frames Kind.Encloses (variableDeclaration steps) := by
  refine (frames_awaited (by decide)).bind fun name =>
    (frames_take? (by simp [Kind.Encloses])).bind fun equals => ?_
  cases equals with
  | none => exact (frames_awaited (by decide)).map fun _ => _
  | some _ =>
    exact (frames_enclosed_expression steps).bind fun _ => (frames_awaited (by decide)).map fun _ => _

theorem frames_expressionStatement : Frames Kind.Encloses (expressionStatement steps) :=
  (frames_enclosed_expression steps).bind fun _ => (frames_awaited (by decide)).map fun _ => _

theorem frames_printStatement : Frames Kind.Encloses (printStatement steps) :=
  (frames_enclosed_expression steps).bind fun _ => (frames_awaited (by decide)).map fun _ => _

theorem frames_returnStatement (keyword : Token) :
    Frames Kind.Encloses (returnStatement steps keyword) :=
  (frames_clause steps _).bind fun _ => (frames_awaited (by decide)).map fun _ => _

theorem frames_forInitializer : Frames Kind.Encloses (forInitializer steps) := by
  refine frames_peek_bind fun t => ?_
  split
  · next hk => exact .inr ⟨_, rfl, by simp [hk, Kind.Encloses], frames_pure _⟩
  · next hk =>
    exact .inr ⟨_, rfl, by simp [hk, Kind.Encloses], (frames_variableDeclaration steps).map _⟩
  · exact .inl ((frames_expressionStatement steps).map _)

theorem frames_params : Frames Kind.Encloses
    (parenthesized .parameters (expect .parameterName) steps) :=
  frames_parenthesized (frames_awaited (by decide)) (by simp [Kind.Encloses]) steps

theorem frames_superclass : Frames Kind.Encloses superclass := by
  refine (frames_take? (by simp [Kind.Encloses])).bind fun less => ?_
  cases less with
  | none => exact frames_pure none
  | some _ => exact (frames_awaited (by decide)).bind fun _ => frames_freshId.map _

end

/-! ## Statements and declarations -/

theorem boundary_append {dropped : Token} {ts us : List Token}
    (h : (us.headD Cursor.standIn).kind = .eof) :
    boundary dropped (ts ++ us) = boundary dropped ts ++ us := by
  induction ts generalizing dropped with
  | nil =>
    cases us with
    | nil => rfl
    | cons u us => simp [boundary, Token.isEnd, show u.kind = .eof from h]
  | cons t ts ih =>
    simp only [List.cons_append, boundary, ih]
    split <;> rfl

theorem resynchronize_suffix (c : Cursor) : (resynchronize c).rest <:+ c.rest := by
  unfold resynchronize
  split
  · exact List.suffix_refl _
  · exact (boundary_suffix _ _).trans (List.tail_suffix _)

/-- Tokens are dropped up to the end at most. -/
theorem resynchronize_append (c : Cursor) (es : List GrammarError) {us : List Token}
    (h : (us.headD Cursor.standIn).kind = .eof) :
    Reply.ok (none : Option α) (resynchronize ⟨c.rest ++ us, c.nextId, es ++ c.errors⟩) =
      (Reply.ok none (resynchronize c)).framed es us := by
  obtain ⟨ts, n, es'⟩ := c
  cases ts with
  | nil =>
    have hend : (⟨us, n, es ++ es'⟩ : Cursor).atEnd := beq_iff_eq.2 h
    rw [List.nil_append, resynchronize, if_pos hend]
    rfl
  | cons t ts =>
    by_cases hend : t.isEnd
    · have hstays (rest : List Token) (es : List GrammarError) :
          resynchronize ⟨t :: rest, n, es⟩ = ⟨t :: rest, n, es⟩ := if_pos hend
      rw [List.cons_append, hstays, hstays]
      rfl
    · have hdrops (rest : List Token) (es : List GrammarError) :
          resynchronize ⟨t :: rest, n, es⟩ = ⟨boundary t rest, n, es⟩ := if_neg hend
      rw [List.cons_append, hdrops, hdrops, boundary_append h]
      rfl

/-- Nothing is read beyond the end. -/
abbrev FramesEnd {α : Type} (r : Rule α) : Prop :=
  Frames (· = .eof) r

theorem frames_recover {phrase : Rule α} (h : FramesEnd phrase) : FramesEnd (recover phrase) := by
  intro ts n ahead hahead
  obtain ⟨reply, hleaves, hrun⟩ := h ts n ahead hahead
  unfold recover
  cases reply with
  | ok v c => exact ⟨.ok (some v) c, hleaves, fun es us hus => by rw [hrun es us hus]; rfl⟩
  | fail e c =>
    refine ⟨.ok none (resynchronize (c.record e)), ?_, fun es us hus => ?_⟩
    · exact (resynchronize_suffix (c.record e)).trans hleaves
    · rw [hrun es us hus, ← resynchronize_append (c.record e) es (hus ▸ hahead)]
      simp [Reply.framed, Cursor.record]
  | exhausted => exact ⟨.exhausted, trivial, fun es us hus => by rw [hrun es us hus]; rfl⟩

section

variable (steps : Nat)

theorem framesEnd_expect (a : Awaited) : FramesEnd (expect a) :=
  frames_expect a.kind_ne_eof

theorem framesEnd_expression : FramesEnd (expression steps) :=
  (frames_enclosed_expression steps).mono fun _ => .inl

section

variable {declaration : Rule (Option Stmt)} (h : FramesEnd declaration)
include h

theorem framesEnd_block : FramesEnd (block declaration steps) :=
  (frames_manyUntil h steps).bind fun _ => (framesEnd_expect _).map fun _ => _

theorem framesEnd_function (role : Role) : FramesEnd (function role declaration steps) :=
  (framesEnd_expect _).bind fun _ => (framesEnd_expect _).bind fun _ =>
    ((frames_params steps).mono fun _ => .inl).bind fun _ => (framesEnd_expect _).bind fun _ =>
    (framesEnd_expect _).bind fun _ => (framesEnd_block steps h).map _

theorem framesEnd_classDeclaration : FramesEnd (classDeclaration declaration steps) :=
  (framesEnd_expect _).bind fun _ => (frames_superclass.mono fun _ => .inl).bind fun _ =>
    (framesEnd_expect _).bind fun _ =>
    (frames_manyUntil ((framesEnd_function steps h .method).map some) steps).bind fun _ =>
    (framesEnd_expect _).map fun _ => _

end

section

variable {statement : Rule Stmt} (h : FramesEnd statement)
include h

theorem framesEnd_forStatement : FramesEnd (forStatement statement steps) :=
  have hclause (kind : Kind) : FramesEnd (unlessNext kind (expression steps)) :=
    (frames_clause steps kind).mono fun _ => .inl
  (framesEnd_expect _).bind fun _ => ((frames_forInitializer steps).mono fun _ => .inl).bind
    fun _ => (hclause _).bind fun _ => (framesEnd_expect _).bind fun _ => (hclause _).bind
    fun _ => (framesEnd_expect _).bind fun _ => h.map _

theorem framesEnd_ifStatement : FramesEnd (ifStatement statement steps) := by
  refine (framesEnd_expect _).bind fun _ => (framesEnd_expression steps).bind fun _ =>
    (framesEnd_expect _).bind fun _ => h.bind fun _ =>
    (frames_take? (by simp)).bind fun other => ?_
  cases other with
  | none => exact frames_pure _
  | some _ => exact h.map _

theorem framesEnd_whileStatement : FramesEnd (whileStatement statement steps) :=
  (framesEnd_expect _).bind fun _ => (framesEnd_expression steps).bind fun _ =>
    (framesEnd_expect _).bind fun _ => h.map _

end

theorem framesEnd_statement_declaration :
    FramesEnd (statement steps) ∧ FramesEnd (declaration steps) := by
  induction steps with
  | zero => exact ⟨frames_exhausted, frames_exhausted⟩
  | succ steps ih =>
    have htaken {t : Token} {k : Kind} (hk : t.kind = k) (hne : k ≠ .eof) :
        t.kind ≠ .eof ∧ ¬t.kind = .eof :=
      ⟨hk ▸ hne, hk ▸ hne⟩
    constructor
    · refine frames_peek_bind fun t => ?_
      split
      · next hk => exact .inr ⟨_, rfl, htaken hk (by decide), framesEnd_forStatement steps ih.1⟩
      · next hk => exact .inr ⟨_, rfl, htaken hk (by decide), framesEnd_ifStatement steps ih.1⟩
      · next hk =>
        exact .inr ⟨_, rfl, htaken hk (by decide), (frames_printStatement steps).mono fun _ => .inl⟩
      · next hk =>
        exact .inr ⟨_, rfl, htaken hk (by decide), (frames_returnStatement steps t).mono fun _ => .inl⟩
      · next hk => exact .inr ⟨_, rfl, htaken hk (by decide), framesEnd_whileStatement steps ih.1⟩
      · next hk => exact .inr ⟨_, rfl, htaken hk (by decide), (framesEnd_block steps ih.2).map _⟩
      · exact .inl ((frames_expressionStatement steps).mono fun _ => .inl)
    · refine frames_recover (frames_peek_bind fun t => ?_)
      split
      · next hk => exact .inr ⟨_, rfl, htaken hk (by decide), framesEnd_classDeclaration steps ih.2⟩
      · next hk =>
        exact .inr ⟨_, rfl, htaken hk (by decide), (framesEnd_function steps ih.2 .function).map _⟩
      · next hk =>
        exact .inr ⟨_, rfl, htaken hk (by decide),
          (frames_variableDeclaration steps).mono fun _ => .inl⟩
      · exact .inl ih.1

/-- A declaration is read in the same way whatever stands behind the end. -/
theorem framesEnd_declaration : FramesEnd (declaration steps) :=
  (framesEnd_statement_declaration steps).2

theorem framesEnd_program : FramesEnd (program steps) :=
  frames_manyUntil (framesEnd_declaration steps) steps

end

end Rule

end LoxLang
