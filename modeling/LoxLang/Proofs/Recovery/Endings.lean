import LoxLang.Proofs.Recovery.Isolation

/-!
# Where the input ends

The first end token ends the input, and so does the end of the list. Which of both it is, and what
stands behind, is seen in nothing but the line of the faults that are noted there: a rule comes to
the same if the input ends in another way.

1. `Rule.endsAs_expression`, `Rule.endsAs_declaration`: rules of the grammar.
2. `Parsed.ofTokens_endsAs`: whole token sequences.
3. `Parsed.end_seen_in_lines_only`: sequences with an end token and more behind it, with nothing
   behind it, and without it.
-/

namespace LoxLang

/-- The same place, but the end of the input is on this line. -/
def Site.endsOn (line : Nat) (site : Site) : Site :=
  match site.lexeme? with
  | none => ⟨line, none⟩
  | some _ => site

def GrammarError.endsOn (line : Nat) (e : GrammarError) : GrammarError :=
  { e with site := e.site.endsOn line }

theorem Site.endsOn_ofToken {t : Token} (h : t.kind ≠ .eof) (line : Nat) :
    (ofToken t).endsOn line = ofToken t := by
  simp [ofToken, endsOn, Token.isEnd, h]

theorem Site.ofToken_end {t : Token} (h : t.kind = .eof) : ofToken t = ⟨t.line, none⟩ := by
  simp [ofToken, Token.isEnd, h]

theorem Site.line_endsOn {line : Nat} {site : Site} (h : (site.endsOn line).lexeme? = none) :
    (site.endsOn line).line = line := by
  obtain ⟨_, _ | _⟩ := site
  · rfl
  · cases h

namespace Cursor

/-- The cursor, if from the end of the input on these tokens were to come. -/
def endsAs (us : List Token) (c : Cursor) : Cursor :=
  ⟨c.rest.takeWhile (fun t => !t.isEnd) ++ us, c.nextId,
    c.errors.map (GrammarError.endsOn (us.headD standIn).line)⟩

end Cursor

def Reply.endsAs {α : Type} (us : List Token) : Reply α → Reply α
  | .ok value c => .ok value (c.endsAs us)
  | .fail e c => .fail (e.endsOn (us.headD Cursor.standIn).line) (c.endsAs us)
  | .exhausted => .exhausted

namespace Rule

variable {α β : Type} {us : List Token}

/-- The rule comes to the same if from the end of the input on these tokens were to come. -/
def EndsAs (us : List Token) (r : Rule α) : Prop :=
  ∀ c, r (c.endsAs us) = (r c).endsAs us

theorem endsAs_pure (value : α) : EndsAs us (Pure.pure value : Rule α) :=
  fun _ => rfl

theorem endsAs_exhausted : EndsAs us (exhausted : Rule α) :=
  fun _ => rfl

theorem endsAs_freshId : EndsAs us freshId :=
  fun _ => rfl

theorem EndsAs.bind {first : Rule α} {next : α → Rule β} (h : EndsAs us first)
    (hnext : ∀ v, EndsAs us (next v)) : EndsAs us (first >>= next) := by
  intro c
  have hc := h c
  cases hrun : first c with
  | ok v c₁ =>
    rw [hrun] at hc
    rw [bind_ok hrun, bind_ok hc]
    exact hnext v c₁
  | fail e c₁ =>
    rw [hrun] at hc
    rw [bind_fail hrun, bind_fail hc]
    rfl
  | exhausted =>
    rw [hrun] at hc
    rw [bind_exhausted hrun, bind_exhausted hc]
    rfl

/-- A phrase of which something is made. -/
theorem EndsAs.map {r : Rule α} (h : EndsAs us r) (make : α → β) :
    EndsAs us (r >>= fun v => Pure.pure (make v)) :=
  h.bind fun _ => endsAs_pure _

/-- A fault at a token that does not end the input. -/
theorem endsAs_record {t : Token} (h : t.kind ≠ .eof) (fault : GrammarFault) :
    EndsAs us (record (Site.ofToken t) fault) := by
  intro c
  simp [record, Cursor.record, Reply.endsAs, Cursor.endsAs, GrammarError.endsOn,
    Site.endsOn_ofToken h]

theorem boundary_takeWhile (dropped : Token) (ts : List Token) :
    boundary dropped (ts.takeWhile fun t => !t.isEnd) =
      (boundary dropped ts).takeWhile fun t => !t.isEnd := by
  induction ts generalizing dropped with
  | nil => rfl
  | cons t ts ih =>
    by_cases ht : t.isEnd
    · simp [boundary, ht]
    · simp only [ht, List.takeWhile_cons, Bool.not_false, if_true, boundary, ih]
      split
      · simp [ht]
      · rfl

/-- What comes next is the same token, or both times the end. -/
theorem peek_endsAs (c : Cursor) :
    ((c.endsAs us).peek = c.peek ∧ c.peek.kind ≠ .eof) ∨
      ((c.endsAs us).peek = us.headD Cursor.standIn ∧ c.peek.kind = .eof) := by
  obtain ⟨_ | ⟨t, rest⟩, n, errors⟩ := c
  · exact .inr ⟨rfl, rfl⟩
  · by_cases ht : t.kind = .eof
    · refine .inr ⟨?_, ht⟩
      simp [Cursor.endsAs, Cursor.peek, Token.isEnd, ht]
    · refine .inl ⟨?_, ht⟩
      simp [Cursor.endsAs, Cursor.peek, Token.isEnd, ht]

section

/-! These tokens have to end the input too. -/

variable (hus : (us.headD Cursor.standIn).kind = .eof)
include hus

theorem kind_peek_endsAs (c : Cursor) : (c.endsAs us).peek.kind = c.peek.kind := by
  rcases peek_endsAs c with ⟨hpeek, -⟩ | ⟨hpeek, hend⟩
  · rw [hpeek]
  · rw [hpeek, hus, hend]

theorem atEnd_endsAs (c : Cursor) : (c.endsAs us).atEnd = c.atEnd := by
  simp only [Cursor.atEnd, Token.isEnd, kind_peek_endsAs hus]

theorem site_endsAs (c : Cursor) :
    Site.ofToken (c.endsAs us).peek =
      (Site.ofToken c.peek).endsOn (us.headD Cursor.standIn).line := by
  rcases peek_endsAs c with ⟨hpeek, hgoes⟩ | ⟨hpeek, hend⟩
  · rw [hpeek, Site.endsOn_ofToken hgoes]
  · rw [hpeek, Site.ofToken_end hus, Site.ofToken_end hend]
    rfl

theorem advance_endsAs (c : Cursor) : (c.endsAs us).advance = c.advance.endsAs us := by
  unfold Cursor.advance
  rw [atEnd_endsAs hus]
  split
  · rfl
  · next hgoes =>
    obtain ⟨_ | ⟨t, rest⟩, n, errors⟩ := c
    · exact absurd rfl hgoes
    · have ht : t.isEnd = false := by simpa [Cursor.atEnd, Cursor.peek] using hgoes
      simp [Cursor.endsAs, ht]

theorem endsAs_advance : EndsAs us advance :=
  fun c => congrArg (Reply.ok ()) (advance_endsAs hus c)

theorem endsAs_fail (fault : GrammarFault) : EndsAs us (fail fault : Rule α) := by
  intro c
  simp only [fail, site_endsAs hus, Reply.endsAs, GrammarError.endsOn]

/-- A token that is taken is not the end, and so it is the same token. -/
theorem endsAs_take?_bind {kinds : List Kind} (hk : .eof ∉ kinds) {next : Option Token → Rule β}
    (hsome : ∀ t, t.kind ∈ kinds → EndsAs us (next (some t))) (hnone : EndsAs us (next none)) :
    EndsAs us (take? kinds >>= next) := by
  intro c
  by_cases hc : c.peek.kind ∈ kinds
  · have hc' : (c.endsAs us).peek.kind ∈ kinds := kind_peek_endsAs hus c ▸ hc
    rw [bind_ok (take?_of_mem hc), bind_ok (take?_of_mem hc'), advance_endsAs hus]
    rcases peek_endsAs c with ⟨hpeek, -⟩ | ⟨-, hend⟩
    · rw [hpeek]
      exact hsome _ hc _
    · exact absurd (hend ▸ hc) hk
  · have hc' : (c.endsAs us).peek.kind ∉ kinds := kind_peek_endsAs hus c ▸ hc
    rw [bind_ok (take?_of_not_mem hc), bind_ok (take?_of_not_mem hc')]
    exact hnone _

theorem endsAs_expect (a : Awaited) : EndsAs us (expect a) := by
  intro c
  by_cases hc : c.peek.kind = a.kind
  · rw [expect_of_kind hc, expect_of_kind ((kind_peek_endsAs hus c).trans hc), advance_endsAs hus]
    rcases peek_endsAs c with ⟨hpeek, -⟩ | ⟨-, hend⟩
    · rw [hpeek]
      rfl
    · exact absurd (hc.symm.trans hend) a.kind_ne_eof
  · have hc' : (c.endsAs us).peek.kind ≠ a.kind := kind_peek_endsAs hus c ▸ hc
    simp only [expect, hc, hc', if_false]
    exact endsAs_fail hus _ c

/-- A rule may look at the next token if it does not tell one end from another. -/
theorem endsAs_peek_bind {next : Token → Rule β} (h : ∀ t, EndsAs us (next t))
    (hend : ∀ t t' : Token, t.kind = .eof → t'.kind = .eof → next t = next t') :
    EndsAs us (peek >>= next) := by
  intro c
  rw [run_peek, run_peek]
  rcases peek_endsAs c with ⟨hpeek, -⟩ | ⟨hpeek, hc⟩
  · rw [hpeek]
    exact h _ c
  · rw [hpeek, hend _ _ hus hc]
    exact h _ c

theorem endsAs_unlessNext (kind : Kind) {phrase : Rule α} (h : EndsAs us phrase) :
    EndsAs us (unlessNext kind phrase) := by
  refine endsAs_peek_bind hus (fun t => ?_) fun t t' ht ht' => by rw [ht, ht']
  split
  · exact endsAs_pure none
  · exact h.map some

theorem resynchronize_endsAs (c : Cursor) :
    resynchronize (c.endsAs us) = (resynchronize c).endsAs us := by
  unfold resynchronize
  rw [atEnd_endsAs hus]
  split
  · rfl
  · next hgoes =>
    obtain ⟨_ | ⟨t, rest⟩, n, errors⟩ := c
    · exact absurd rfl hgoes
    · have ht : t.isEnd = false := by simpa [Cursor.atEnd, Cursor.peek] using hgoes
      simp [Cursor.endsAs, Cursor.peek, ht, boundary_append hus, boundary_takeWhile]

theorem endsAs_recover {phrase : Rule α} (h : EndsAs us phrase) : EndsAs us (recover phrase) := by
  intro c
  simp only [recover, h c]
  cases phrase c with
  | ok v c => rfl
  | fail e c =>
    have hrecord : (c.endsAs us).record (e.endsOn (us.headD Cursor.standIn).line) =
        (c.record e).endsAs us := by
      simp [Cursor.record, Cursor.endsAs]
    simp only [Reply.endsAs, hrecord, resynchronize_endsAs hus]
  | exhausted => rfl

theorem endsAs_manyUntil {stops : Token → Bool}
    (hstops : ∀ t t' : Token, t.kind = .eof → t'.kind = .eof → stops t = stops t')
    {phrase : Rule (Option α)} (h : EndsAs us phrase) (steps : Nat) :
    EndsAs us (manyUntil stops phrase steps) := by
  induction steps with
  | zero => exact endsAs_exhausted
  | succ steps ih =>
    refine endsAs_peek_bind hus (fun t => ?_) fun t t' ht ht' => by rw [hstops t t' ht ht']
    split
    · exact endsAs_pure []
    · exact h.bind fun first => ih.map _

/-- The fault is at the next token, which may be the end. -/
theorem endsAs_limit (listed : Listed) (count : Nat) : EndsAs us (limit listed count) := by
  intro c
  rw [limit, run_peek, run_peek]
  split
  · have hsite := site_endsAs hus c
    simp only [record, Cursor.record, hsite, Reply.endsAs]
    simp [Cursor.endsAs, GrammarError.endsOn]
  · rfl

theorem endsAs_commaSeparated (listed : Listed) {phrase : Rule α} (h : EndsAs us phrase)
    (steps count : Nat) : EndsAs us (commaSeparated listed phrase steps count) := by
  induction steps generalizing count with
  | zero => exact endsAs_exhausted
  | succ steps ih =>
    exact (endsAs_limit hus listed count).bind fun _ => h.bind fun first =>
      endsAs_take?_bind hus (by simp) (fun _ _ => (ih (count + 1)).map _) (endsAs_pure _)

theorem endsAs_parenthesized (listed : Listed) {phrase : Rule α} (h : EndsAs us phrase)
    (steps : Nat) : EndsAs us (parenthesized listed phrase steps) :=
  (endsAs_unlessNext hus _ (endsAs_commaSeparated hus listed h steps 0)).map _

/-! ## Expressions -/

theorem endsAs_chainFrom {level : Level} (hl : .eof ∉ level.operators) {operand : Rule Expr}
    (h : EndsAs us operand) (steps : Nat) (left : Expr) :
    EndsAs us (chainFrom level operand steps left) := by
  induction steps generalizing left with
  | zero => exact endsAs_exhausted
  | succ steps ih =>
    exact endsAs_take?_bind hus hl (fun _ _ => h.bind fun right => ih _) (endsAs_pure left)

theorem endsAs_chains {levels : List Level} (hl : ∀ level ∈ levels, .eof ∉ level.operators)
    {operand : Rule Expr} (h : EndsAs us operand) (steps : Nat) :
    EndsAs us (chains levels operand steps) := by
  induction levels with
  | nil => exact h
  | cons level tighter ih =>
    obtain ⟨hlevel, htighter⟩ := List.forall_mem_cons.1 hl
    exact (ih htighter).bind fun left => endsAs_chainFrom hus hlevel (ih htighter) steps left

omit hus in
theorem endsAs_assignTo (target : Expr) {equals : Token} (hequals : equals.kind ≠ .eof)
    (value : Expr) : EndsAs us (assignTo target equals value) := by
  unfold assignTo
  split
  · exact endsAs_freshId.map _
  · exact endsAs_pure _
  · exact (endsAs_record hequals _).map fun _ => _

theorem endsAs_primary {expression : Rule Expr} (h : EndsAs us expression) :
    EndsAs us (primary expression) := by
  refine endsAs_peek_bind hus (fun t => ?_) fun t t' ht ht' => by rw [ht, ht']
  have hadvance := endsAs_advance hus
  split
  · exact hadvance.map fun _ => _
  · exact hadvance.map fun _ => _
  · exact hadvance.map fun _ => _
  · exact hadvance.map fun _ => _
  · exact hadvance.map fun _ => _
  · exact hadvance.bind fun _ => (endsAs_expect hus _).bind fun _ =>
      (endsAs_expect hus _).bind fun _ => endsAs_freshId.map _
  · exact hadvance.bind fun _ => endsAs_freshId.map _
  · exact hadvance.bind fun _ => endsAs_freshId.map _
  · exact hadvance.bind fun _ => h.bind fun _ => (endsAs_expect hus _).map fun _ => _
  · exact endsAs_fail hus _

theorem endsAs_accesses {expression : Rule Expr} (h : EndsAs us expression) (steps : Nat)
    (object : Expr) : EndsAs us (accesses expression steps object) := by
  induction steps generalizing object with
  | zero => exact endsAs_exhausted
  | succ steps ih =>
    refine endsAs_take?_bind hus (by simp) (fun _ _ => ?_) ?_
    · exact (endsAs_parenthesized hus _ h steps).bind fun _ => (endsAs_expect hus _).bind
        fun _ => ih _
    · exact endsAs_take?_bind hus (by simp)
        (fun _ _ => (endsAs_expect hus _).bind fun _ => ih _) (endsAs_pure object)

theorem endsAs_expression_unary (steps : Nat) :
    EndsAs us (expression steps) ∧ EndsAs us (unary steps) := by
  induction steps with
  | zero => exact ⟨endsAs_exhausted, endsAs_exhausted⟩
  | succ steps ih =>
    have hlevels : ∀ level ∈ Level.all, .eof ∉ level.operators :=
      fun _ hmem => (Level.proper_of_mem_all hmem).1
    constructor
    · refine (endsAs_chains hus hlevels ih.2 steps).bind fun left =>
        endsAs_take?_bind hus (by simp) (fun equals hequals => ?_) (endsAs_pure left)
      have hne : equals.kind ≠ .eof := by
        rw [List.mem_singleton.1 hequals]
        exact nofun
      exact ih.1.bind fun value => endsAs_assignTo left hne value
    · exact endsAs_take?_bind hus (by simp) (fun _ _ => ih.2.map _)
        ((endsAs_primary hus ih.1).bind fun object => endsAs_accesses hus ih.1 steps object)

theorem endsAs_expression (steps : Nat) : EndsAs us (expression steps) :=
  (endsAs_expression_unary hus steps).1

/-! ## Statements -/

theorem endsAs_clause (kind : Kind) (steps : Nat) :
    EndsAs us (unlessNext kind (expression steps)) :=
  endsAs_unlessNext hus kind (endsAs_expression hus steps)

theorem endsAs_variableDeclaration (steps : Nat) : EndsAs us (variableDeclaration steps) :=
  (endsAs_expect hus _).bind fun _ => endsAs_take?_bind hus (by simp)
    (fun _ _ => (endsAs_expression hus steps).bind fun _ => (endsAs_expect hus _).map fun _ => _)
    ((endsAs_expect hus _).map fun _ => _)

theorem endsAs_expressionStatement (steps : Nat) : EndsAs us (expressionStatement steps) :=
  (endsAs_expression hus steps).bind fun _ => (endsAs_expect hus _).map fun _ => _

theorem endsAs_printStatement (steps : Nat) : EndsAs us (printStatement steps) :=
  (endsAs_expression hus steps).bind fun _ => (endsAs_expect hus _).map fun _ => _

theorem endsAs_returnStatement (steps : Nat) (keyword : Token) :
    EndsAs us (returnStatement steps keyword) :=
  (endsAs_clause hus _ steps).bind fun _ => (endsAs_expect hus _).map fun _ => _

theorem endsAs_superclass : EndsAs us superclass :=
  endsAs_take?_bind hus (by simp)
    (fun _ _ => (endsAs_expect hus _).bind fun _ => endsAs_freshId.map _) (endsAs_pure none)

theorem endsAs_forInitializer (steps : Nat) : EndsAs us (forInitializer steps) := by
  refine endsAs_peek_bind hus (fun t => ?_) fun t t' ht ht' => by rw [ht, ht']
  split
  · exact (endsAs_advance hus).map fun _ => _
  · exact (endsAs_advance hus).bind fun _ => (endsAs_variableDeclaration hus steps).map _
  · exact (endsAs_expressionStatement hus steps).map _

section

variable {declaration : Rule (Option Stmt)} (h : EndsAs us declaration)
include h

theorem endsAs_block (steps : Nat) : EndsAs us (block declaration steps) :=
  (endsAs_manyUntil hus (fun t t' ht ht' => by simp [Token.isEnd, ht, ht']) h steps).bind
    fun _ => (endsAs_expect hus _).map fun _ => _

theorem endsAs_function (role : Role) (steps : Nat) :
    EndsAs us (function role declaration steps) :=
  (endsAs_expect hus _).bind fun _ => (endsAs_expect hus _).bind fun _ =>
    (endsAs_parenthesized hus _ (endsAs_expect hus _) steps).bind fun _ =>
    (endsAs_expect hus _).bind fun _ => (endsAs_expect hus _).bind fun _ =>
    (endsAs_block hus h steps).map _

theorem endsAs_classDeclaration (steps : Nat) :
    EndsAs us (classDeclaration declaration steps) :=
  (endsAs_expect hus _).bind fun _ => (endsAs_superclass hus).bind fun _ =>
    (endsAs_expect hus _).bind fun _ =>
    (endsAs_manyUntil hus (fun t t' ht ht' => by simp [Token.isEnd, ht, ht'])
      ((endsAs_function hus h .method steps).map some) steps).bind fun _ =>
    (endsAs_expect hus _).map fun _ => _

end

section

variable {statement : Rule Stmt} (h : EndsAs us statement)
include h

theorem endsAs_forStatement (steps : Nat) : EndsAs us (forStatement statement steps) :=
  (endsAs_expect hus _).bind fun _ => (endsAs_forInitializer hus steps).bind fun _ =>
    (endsAs_clause hus _ steps).bind fun _ => (endsAs_expect hus _).bind fun _ =>
    (endsAs_clause hus _ steps).bind fun _ => (endsAs_expect hus _).bind fun _ => h.map _

theorem endsAs_ifStatement (steps : Nat) : EndsAs us (ifStatement statement steps) :=
  (endsAs_expect hus _).bind fun _ => (endsAs_expression hus steps).bind fun _ =>
    (endsAs_expect hus _).bind fun _ => h.bind fun _ =>
    endsAs_take?_bind hus (by simp) (fun _ _ => h.map _) (endsAs_pure _)

theorem endsAs_whileStatement (steps : Nat) : EndsAs us (whileStatement statement steps) :=
  (endsAs_expect hus _).bind fun _ => (endsAs_expression hus steps).bind fun _ =>
    (endsAs_expect hus _).bind fun _ => h.map _

end

theorem endsAs_statement_declaration (steps : Nat) :
    EndsAs us (statement steps) ∧ EndsAs us (declaration steps) := by
  induction steps with
  | zero => exact ⟨endsAs_exhausted, endsAs_exhausted⟩
  | succ steps ih =>
    have hadvance := endsAs_advance hus
    constructor
    · -- Of the next token only a return statement keeps more than the kind.
      refine endsAs_peek_bind hus (fun t => ?_) fun t t' ht ht' => by simp only [ht, ht']
      split
      · exact hadvance.bind fun _ => endsAs_forStatement hus ih.1 steps
      · exact hadvance.bind fun _ => endsAs_ifStatement hus ih.1 steps
      · exact hadvance.bind fun _ => endsAs_printStatement hus steps
      · exact hadvance.bind fun _ => endsAs_returnStatement hus steps t
      · exact hadvance.bind fun _ => endsAs_whileStatement hus ih.1 steps
      · exact hadvance.bind fun _ => (endsAs_block hus ih.2 steps).map _
      · exact endsAs_expressionStatement hus steps
    · refine endsAs_recover hus (endsAs_peek_bind hus (fun t => ?_)
        fun t t' ht ht' => by simp only [ht, ht'])
      split
      · exact hadvance.bind fun _ => endsAs_classDeclaration hus ih.2 steps
      · exact hadvance.bind fun _ => (endsAs_function hus ih.2 .function steps).map _
      · exact hadvance.bind fun _ => endsAs_variableDeclaration hus steps
      · exact ih.1

theorem endsAs_declaration (steps : Nat) : EndsAs us (declaration steps) :=
  (endsAs_statement_declaration hus steps).2

theorem endsAs_program (steps : Nat) : EndsAs us (program steps) :=
  endsAs_manyUntil hus (fun t t' ht ht' => by simp [Token.isEnd, ht, ht'])
    (endsAs_declaration hus steps) steps

end

end Rule

namespace Parsed

/-- What was read, if the input had ended on this line. -/
def endsOn (line : Nat) (parsed : Parsed) : Parsed :=
  { parsed with errors := parsed.errors.map (GrammarError.endsOn line) }

/-- If the input ends in another way, it is read as the same, with the faults at its end on another
line. -/
theorem ofTokens_endsAs {us : List Token} (hus : (us.headD Cursor.standIn).kind = .eof)
    (tokens : List Token) (first : Nat) :
    ofTokens (tokens.takeWhile (fun t => !t.isEnd) ++ us) first =
      (ofTokens tokens first).endsOn (us.headD Cursor.standIn).line := by
  let ended := tokens.takeWhile (fun t => !t.isEnd) ++ us
  -- The two sequences differ in length, and so in the steps that are granted to them.
  obtain ⟨enough, hsteps, hsteps'⟩ : ∃ m, steps tokens.length ≤ m ∧ steps ended.length ≤ m :=
    ⟨max (steps tokens.length) (steps ended.length), Nat.le_max_left .., Nat.le_max_right ..⟩
  obtain ⟨statements, c, hrun⟩ := Rule.program_ends tokens first
  have hlong := (Rule.outlasts_program hsteps).ok hrun
  have hended : Rule.program enough ⟨ended, first, []⟩ = .ok statements (c.endsAs us) := by
    have h := Rule.endsAs_program hus enough ⟨tokens, first, []⟩
    rwa [hlong] at h
  rw [ofTokens_of_comesTo (.of_eq hrun)]
  exact ofTokens_of_comesTo (((Rule.outlasts_program hsteps') _).trans (.of_eq hended))

/-- What stands behind the first end token is not read. Without an end token the same is read, and
noted on line 0 where an end token gives its own line. -/
theorem end_seen_in_lines_only {ts : List Token} (hts : ∀ t ∈ ts, t.kind ≠ .eof) {last : Token}
    (hlast : last.kind = .eof) (behind : List Token) (first : Nat) :
    ofTokens (ts ++ last :: behind) first = ofTokens (ts ++ [last]) first ∧
      (∀ e ∈ (ofTokens (ts ++ [last]) first).errors,
        e.site.lexeme? = none → e.site.line = last.line) ∧
      ofTokens ts first = (ofTokens (ts ++ [last]) first).endsOn 0 := by
  have hbefore (us : List Token) (hus : (us.headD Cursor.standIn).kind = .eof) :
      ((ts ++ us).takeWhile fun t => !t.isEnd) = ts :=
    takeWhile_eq_of_append hts (beq_iff_eq.2 hus)
  have hended (us : List Token) (hus : (us.headD Cursor.standIn).kind = .eof) :
      ofTokens (ts ++ us) first =
        (ofTokens (ts ++ [last]) first).endsOn (us.headD Cursor.standIn).line := by
    have h := ofTokens_endsAs hus (ts ++ [last]) first
    rwa [hbefore [last] hlast] at h
  have hone := hended [last] hlast
  refine ⟨(hended (last :: behind) hlast).trans hone.symm, fun e he hend => ?_, ?_⟩
  · rw [hone] at he
    obtain ⟨e, -, rfl⟩ := List.mem_map.1 he
    exact Site.line_endsOn hend
  · have halone := hended [] rfl
    rwa [List.append_nil] at halone

/-- A semicolon is missing at the end, and the one behind the end does not count. -/
theorem end_seen_in_lines_only_print :
    let ts : List Token := [⟨.keyword .printWord, "print", 1⟩, ⟨.identifier, "x", 1⟩]
    let last : Token := ⟨.eof, "", 7⟩
    let behind : List Token := [⟨.mark .semicolon, ";", 8⟩]
    ((∀ t ∈ ts, t.kind ≠ .eof) ∧ last.kind = .eof) ∧
      (ofTokens (ts ++ last :: behind) 0).errors = [⟨⟨7, none⟩, .missing .printEnd⟩] ∧
      (ofTokens ts 0).errors = [⟨⟨0, none⟩, .missing .printEnd⟩] := by
  intro ts last behind
  have hts : ∀ t ∈ ts, t.kind ≠ .eof := by decide
  have hlast : last.kind = .eof := rfl
  obtain ⟨hbehind, -, halone⟩ := end_seen_in_lines_only hts hlast behind 0
  refine ⟨⟨hts, hlast⟩, ?_, ?_⟩
  · rw [hbehind]
    rfl
  · rw [halone]
    rfl

end Parsed

end LoxLang
