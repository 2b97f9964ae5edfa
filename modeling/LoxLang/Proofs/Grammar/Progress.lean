import LoxLang.Proofs.Grammar.Reading

/-!
# Rules end

With enough steps for the tokens to come, no rule gives up: it succeeds or fails, whatever the
tokens are. No rule goes back, neither in the tokens nor in the numbers of mentions, and those that
must take a token to succeed do.

1. `ends_expression`, `ends_statement_declaration`: how many steps suffice for so many tokens.
2. `ends_program`: reading a token sequence always comes to its end.
-/

namespace LoxLang

namespace Cursor

/-- From `c` reading can come to `d`: tokens are only dropped, and numbers only used up. -/
structure Precedes (c d : Cursor) : Prop where
  rest : d.rest <:+ c.rest
  nextId : c.nextId ≤ d.nextId

theorem Precedes.refl (c : Cursor) : c.Precedes c :=
  ⟨List.suffix_refl _, Nat.le_refl _⟩

theorem Precedes.trans {c d e : Cursor} (h : c.Precedes d) (h' : d.Precedes e) : c.Precedes e :=
  ⟨h'.rest.trans h.rest, Nat.le_trans h.nextId h'.nextId⟩

theorem precedes_advance (c : Cursor) : c.Precedes c.advance := by
  unfold advance
  split
  · exact .refl c
  · exact ⟨List.tail_suffix _, Nat.le_refl _⟩

end Cursor

namespace Rule

variable {α β : Type}

/-- A reply to a cursor that comes, does not go back, and takes at least `k` tokens to succeed. -/
def IsDone (c : Cursor) (k : Nat) : Reply α → Prop
  | .ok _ c' => c.Precedes c' ∧ c'.rest.length + k ≤ c.rest.length
  | .fail _ c' => c.Precedes c'
  | .exhausted => False

/-- Before at most `m` tokens, the rule `r` comes to an end, and takes at least `k` of them to
succeed. -/
def Ends (m : Nat) (r : Rule α) (k : Nat) : Prop :=
  ∀ c : Cursor, c.rest.length ≤ m → IsDone c k (r c)

theorem IsDone.mono {c : Cursor} {k k' : Nat} {reply : Reply α} (h : IsDone c k reply)
    (hk : k' ≤ k) : IsDone c k' reply := by
  cases reply with
  | ok v c' => exact ⟨h.1, by have := h.2; omega⟩
  | fail e c' => exact h
  | exhausted => exact h

theorem Ends.mono {m m' k k' : Nat} {r : Rule α} (h : Ends m r k) (hm : m' ≤ m) (hk : k' ≤ k) :
    Ends m' r k' :=
  fun c hc => (h c (Nat.le_trans hc hm)).mono hk

theorem ends_pure (m : Nat) (value : α) : Ends m (Pure.pure value : Rule α) 0 :=
  fun c _ => ⟨.refl c, Nat.le_refl _⟩

theorem ends_fail (m k : Nat) (fault : GrammarFault) : Ends m (fail fault : Rule α) k :=
  fun c _ => .refl c

theorem ends_record (m : Nat) (site : Site) (fault : GrammarFault) :
    Ends m (record site fault) 0 :=
  fun _ _ => ⟨⟨List.suffix_refl _, Nat.le_refl _⟩, Nat.le_refl _⟩

theorem ends_freshId (m : Nat) : Ends m freshId 0 :=
  fun _ _ => ⟨⟨List.suffix_refl _, Nat.le_succ _⟩, Nat.le_refl _⟩

theorem IsDone.bind {c : Cursor} {k k₁ : Nat} {first : Rule α} {next : α → Rule β}
    (h₁ : IsDone c k₁ (first c))
    (hnext : ∀ v c', c'.rest.length + k₁ ≤ c.rest.length → IsDone c' (k - k₁) (next v c')) :
    IsDone c k ((first >>= next) c) := by
  cases hf : first c with
  | ok v c₁ =>
    rw [hf] at h₁
    rw [bind_ok hf]
    have hlen := h₁.2
    have h₂ := hnext v c₁ hlen
    cases hv : next v c₁ with
    | ok w c₂ =>
      rw [hv] at h₂
      have hlen' := h₂.2
      exact ⟨h₁.1.trans h₂.1, by omega⟩
    | fail e c₂ =>
      rw [hv] at h₂
      exact h₁.1.trans h₂
    | exhausted =>
      rw [hv] at h₂
      exact h₂
  | fail e c₁ =>
    rw [hf] at h₁
    rw [bind_fail hf]
    exact h₁
  | exhausted =>
    rw [hf] at h₁
    exact h₁.elim

theorem Ends.bind {m k k₁ : Nat} {first : Rule α} {next : α → Rule β} (h : Ends m first k₁)
    (hnext : ∀ v, Ends (m - k₁) (next v) (k - k₁)) : Ends m (first >>= next) k :=
  fun c hc => (h c hc).bind fun v c' hlen => hnext v c' (by omega)

theorem isDone_advance {c : Cursor} {m k : Nat} {r : Rule β} (hc : c.rest.length ≤ m)
    (hend : c.peek.kind ≠ .eof) (h : 0 < m → Ends (m - 1) r (k - 1)) :
    IsDone c k (r c.advance) := by
  have hlen : c.rest.length = c.advance.rest.length + 1 := by
    rw [Cursor.rest_of_peek hend, List.length_cons]
  have hr := h (by omega) c.advance (by omega)
  cases hv : r c.advance with
  | ok v c' =>
    rw [hv] at hr
    exact ⟨c.precedes_advance.trans hr.1, by have := hr.2; omega⟩
  | fail e c' =>
    rw [hv] at hr
    exact c.precedes_advance.trans hr
  | exhausted =>
    rw [hv] at hr
    exact hr

theorem ends_peek_bind {m k : Nat} {next : Token → Rule β}
    (h : ∀ t, Ends m (next t) k ∨
      ∃ r : Rule β, next t = (advance >>= fun _ => r) ∧ t.kind ≠ .eof ∧
        (0 < m → Ends (m - 1) r (k - 1))) :
    Ends m (peek >>= next) k := by
  intro c hc
  rcases h c.peek with hr | ⟨r, hnext, hend, hr⟩
  · exact hr c hc
  · have hrun : (peek >>= next) c = r c.advance := by
      show next c.peek c = _
      rw [hnext]
      rfl
    rw [hrun]
    exact isDone_advance hc hend hr

theorem ends_take?_bind {m k : Nat} {kinds : List Kind} (hk : .eof ∉ kinds)
    {next : Option Token → Rule β} (hsome : 0 < m → ∀ t, Ends (m - 1) (next (some t)) (k - 1))
    (hnone : Ends m (next none) k) : Ends m (take? kinds >>= next) k := by
  intro c hc
  by_cases hp : c.peek.kind ∈ kinds
  · rw [bind_ok (take?_of_mem hp)]
    exact isDone_advance hc (fun he => hk (he ▸ hp)) fun hm => hsome hm c.peek
  · rw [bind_ok (take?_of_not_mem hp)]
    exact hnone c hc

theorem ends_expect (m : Nat) (a : Awaited) : Ends m (expect a) 1 := by
  intro c hc
  unfold expect
  split
  · next hk =>
    have hlen := congrArg List.length (Cursor.rest_of_peek (hk ▸ a.kind_ne_eof))
    exact ⟨c.precedes_advance, by simp [hlen]⟩
  · exact .refl c

theorem ends_unlessNext {m : Nat} {kind : Kind} {phrase : Rule α} (h : Ends m phrase 0) :
    Ends m (unlessNext kind phrase) 0 := by
  refine ends_peek_bind fun t => .inl ?_
  split
  · exact ends_pure m none
  · exact h.bind fun v => ends_pure _ _

theorem ends_commaSeparated {m : Nat} {listed : Listed} {phrase : Rule α} (h : Ends m phrase 0)
    {steps : Nat} (hs : m < steps) (count : Nat) :
    Ends m (commaSeparated listed phrase steps count) 0 := by
  induction steps generalizing m count with
  | zero => exact absurd hs (Nat.not_lt_zero _)
  | succ steps ih =>
    have hlimit : Ends m (limit listed count) 0 := by
      refine ends_peek_bind fun t => .inl ?_
      split
      · exact ends_record m _ _
      · exact ends_pure m ()
    refine hlimit.bind fun _ => h.bind fun first => ends_take?_bind (by simp) ?_ (ends_pure _ _)
    intro hm comma
    exact (ih (h.mono (Nat.sub_le _ _) (Nat.le_refl 0)) (by omega) (count + 1)).bind
      fun _ => ends_pure _ _

theorem ends_parenthesized {m : Nat} {listed : Listed} {phrase : Rule α} (h : Ends m phrase 0)
    {steps : Nat} (hs : m < steps) : Ends m (parenthesized listed phrase steps) 0 :=
  (ends_unlessNext (ends_commaSeparated h hs 0)).bind fun _ => ends_pure _ _

/-- Phrases up to a stop end if each of them takes a token when it does not stand before a stop. -/
theorem ends_manyUntil {m : Nat} {stops : Token → Bool} {phrase : Rule (Option α)}
    (h : ∀ c : Cursor, c.rest.length ≤ m → stops c.peek = false → IsDone c 1 (phrase c))
    {steps : Nat} (hs : m < steps) : Ends m (manyUntil stops phrase steps) 0 := by
  induction steps generalizing m with
  | zero => exact absurd hs (Nat.not_lt_zero _)
  | succ steps ih =>
    intro c hc
    show IsDone c 0 ((if stops c.peek then Pure.pure [] else do
      let first ← phrase
      let others ← manyUntil stops phrase steps
      return first.toList ++ others : Rule (List α)) c)
    split
    · exact ends_pure m [] c hc
    · next hstop =>
      refine (h c hc (by simpa using hstop)).bind fun first c' hlen => ?_
      have hrest := (ih (m := m - 1) (fun c hc => h c (by omega)) (by omega)).bind (k := 0)
        fun others => ends_pure _ (first.toList ++ others)
      exact hrest c' (by omega)

/-! ## Expressions -/

theorem ends_chainFrom {m : Nat} {level : Level} (hl : .eof ∉ level.operators)
    {operand : Rule Expr} (h : Ends m operand 0) {steps : Nat} (hs : m < steps) (left : Expr) :
    Ends m (chainFrom level operand steps left) 0 := by
  induction steps generalizing m left with
  | zero => exact absurd hs (Nat.not_lt_zero _)
  | succ steps ih =>
    refine ends_take?_bind hl (fun hm operator => ?_) (ends_pure m left)
    have hoperand := h.mono (Nat.sub_le m 1) (Nat.le_refl 0)
    exact hoperand.bind fun right => ih hoperand (by omega) _

theorem ends_chains {m : Nat} {operand : Rule Expr} (h : Ends m operand 1) {steps : Nat}
    (hs : m < steps) {levels : List Level} (hl : ∀ level ∈ levels, level.Proper) :
    Ends m (chains levels operand steps) 1 := by
  induction levels with
  | nil => exact h
  | cons level levels ih =>
    have htighter := ih fun l hm => hl l (List.mem_cons_of_mem _ hm)
    exact htighter.bind fun left => ends_chainFrom (hl level List.mem_cons_self).1
      (htighter.mono (Nat.sub_le _ _) (Nat.zero_le _)) (by omega) left

theorem ends_assignTo (m : Nat) (target : Expr) (equals : Token) (value : Expr) :
    Ends m (assignTo target equals value) 0 := by
  unfold assignTo
  split
  · exact (ends_freshId m).bind fun _ => ends_pure _ _
  · exact ends_pure _ _
  · exact (ends_record m _ _).bind fun _ => ends_pure _ _

theorem ends_primary {m : Nat} {expression : Rule Expr}
    (h : 0 < m → Ends (m - 1) expression 0) : Ends m (primary expression) 1 := by
  refine ends_peek_bind fun t => ?_
  split
  · next hk => exact .inr ⟨_, rfl, by simp [hk], fun _ => ends_pure _ _⟩
  · next hk => exact .inr ⟨_, rfl, by simp [hk], fun _ => ends_pure _ _⟩
  · next hk => exact .inr ⟨_, rfl, by simp [hk], fun _ => ends_pure _ _⟩
  · next hk => exact .inr ⟨_, rfl, by simp [hk], fun _ => ends_pure _ _⟩
  · next hk => exact .inr ⟨_, rfl, by simp [hk], fun _ => ends_pure _ _⟩
  · next hk =>
    exact .inr ⟨_, rfl, by simp [hk], fun _ => (ends_expect _ _).bind fun _ =>
      (ends_expect _ _).bind fun _ => (ends_freshId _).bind fun _ => ends_pure _ _⟩
  · next hk =>
    exact .inr ⟨_, rfl, by simp [hk], fun _ => (ends_freshId _).bind fun _ => ends_pure _ _⟩
  · next hk =>
    exact .inr ⟨_, rfl, by simp [hk], fun _ => (ends_freshId _).bind fun _ => ends_pure _ _⟩
  · next hk =>
    exact .inr ⟨_, rfl, by simp [hk], fun hm => (h hm).bind fun _ =>
      (ends_expect _ _).bind fun _ => ends_pure _ _⟩
  · exact .inl (ends_fail _ _ _)

theorem ends_accesses {m : Nat} {expression : Rule Expr}
    (h : 0 < m → Ends (m - 1) expression 0) {steps : Nat} (hs : m < steps) (object : Expr) :
    Ends m (accesses expression steps object) 0 := by
  induction steps generalizing m object with
  | zero => exact absurd hs (Nat.not_lt_zero _)
  | succ steps ih =>
    have hrest {l : Nat} (hl : l < m) (object : Expr) :
        Ends l (accesses expression steps object) 0 :=
      ih (fun _ => (h (by omega)).mono (by omega) (Nat.le_refl 0)) (by omega) object
    refine ends_take?_bind (by simp) (fun hm _ => ?_)
      (ends_take?_bind (by simp) (fun hm _ => ?_) (ends_pure _ _))
    · exact (ends_parenthesized (h hm) (by omega)).bind
        fun _ => (ends_expect _ _).bind fun _ => hrest (by omega) _
    · exact (ends_expect _ _).bind fun _ => hrest (by omega) _

/-- How many steps suffice for an expression or an operand among so many tokens. -/
theorem ends_expression_unary (steps m : Nat) :
    (2 * m + 3 ≤ steps → Ends m (expression steps) 1) ∧
      (2 * m + 2 ≤ steps → Ends m (unary steps) 1) := by
  induction steps generalizing m with
  | zero => exact ⟨fun h => by omega, fun h => by omega⟩
  | succ steps ih =>
    constructor
    · intro hs
      refine (ends_chains ((ih m).2 (by omega)) (by omega)
        fun _ hm => Level.proper_of_mem_all hm).bind fun left => ?_
      refine ends_take?_bind (by simp) (fun hm equals => ?_) (ends_pure _ _)
      have hvalue := (ih (m - 1 - 1)).1 (by omega)
      exact (hvalue.mono (Nat.le_refl _) (Nat.zero_le 1)).bind fun _ => ends_assignTo _ _ _ _
    · intro hs
      have hinner : 0 < m → Ends (m - 1) (expression steps) 0 := fun hm =>
        ((ih (m - 1)).1 (by omega)).mono (Nat.le_refl _) (Nat.zero_le 1)
      refine ends_take?_bind (by simp) (fun hm operator => ?_) ?_
      · have hoperand := (ih (m - 1)).2 (by omega)
        exact (hoperand.mono (Nat.le_refl _) (Nat.zero_le 1)).bind fun _ => ends_pure _ _
      · exact (ends_primary hinner).bind fun object => ends_accesses
          (fun hm => (hinner (by omega)).mono (Nat.sub_le _ _) (Nat.le_refl 0)) (by omega) object

theorem ends_expression {steps m : Nat} (hs : 2 * m + 3 ≤ steps) : Ends m (expression steps) 1 :=
  (ends_expression_unary steps m).1 hs

/-! ## Statements -/

theorem ends_clause {steps m : Nat} (hs : 2 * m + 3 ≤ steps) (kind : Kind) :
    Ends m (unlessNext kind (expression steps)) 0 :=
  ends_unlessNext ((ends_expression hs).mono (Nat.le_refl m) (Nat.zero_le 1))

theorem ends_variableDeclaration {steps m : Nat} (hs : 2 * m + 3 ≤ steps) :
    Ends m (variableDeclaration steps) 0 := by
  refine (ends_expect m _).bind fun _ => ends_take?_bind (by simp) (fun _ _ => ?_)
    ((ends_expect _ _).bind fun _ => ends_pure _ _)
  exact (ends_expression (by omega)).bind fun _ => (ends_expect _ _).bind fun _ => ends_pure _ _

theorem ends_expressionStatement {steps m : Nat} (hs : 2 * m + 3 ≤ steps) :
    Ends m (expressionStatement steps) 1 :=
  (ends_expression hs).bind fun _ => (ends_expect _ _).bind fun _ => ends_pure _ _

/-- A declaration that stands before some token takes at least one, also when it fails. -/
def Advances (m : Nat) (declaration : Rule (Option Stmt)) : Prop :=
  ∀ c : Cursor, c.rest.length ≤ m → c.peek.isEnd = false → IsDone c 1 (declaration c)

theorem ends_block {m steps : Nat} {declaration : Rule (Option Stmt)} (h : Advances m declaration)
    (hs : m < steps) : Ends m (block declaration steps) 0 := by
  refine (ends_manyUntil (fun c hc hstop => h c hc ?_) hs).bind fun _ =>
    (ends_expect _ _).bind fun _ => ends_pure _ _
  exact (Bool.or_eq_false_iff.1 hstop).1

theorem ends_function {m steps : Nat} {declaration : Rule (Option Stmt)}
    (h : Advances m declaration) (hs : m < steps) (role : Role) :
    Ends m (function role declaration steps) 1 := by
  have hparameter {l : Nat} : Ends l (expect .parameterName) 0 :=
    (ends_expect l _).mono (Nat.le_refl l) (Nat.zero_le 1)
  refine (ends_expect m _).bind fun _ => (ends_expect _ _).bind fun _ =>
    (ends_parenthesized hparameter (by omega)).bind fun _ => (ends_expect _ _).bind fun _ =>
    (ends_expect _ _).bind fun _ => (ends_block (fun c hc => h c (by omega)) (by omega)).bind
    fun _ => ends_pure _ _

theorem ends_classDeclaration {m steps : Nat} {declaration : Rule (Option Stmt)}
    (h : Advances m declaration) (hs : m < steps) :
    Ends m (classDeclaration declaration steps) 0 := by
  have hsuper : Ends (m - 1) superclass 0 :=
    ends_take?_bind (by simp) (fun _ _ => (ends_expect _ _).bind fun _ =>
      (ends_freshId _).bind fun _ => ends_pure _ _) (ends_pure _ _)
  have hmethod {l : Nat} (hl : l ≤ m) :
      Ends l (do return some (← function .method declaration steps) : Rule _) 1 :=
    (ends_function (fun c hc => h c (by omega)) (by omega) .method).bind fun _ => ends_pure _ _
  refine (ends_expect m _).bind fun _ => hsuper.bind fun _ => (ends_expect _ _).bind fun _ =>
    (ends_manyUntil (fun c hc _ => hmethod (Nat.le_refl m) c (by omega)) (by omega)).bind
    fun _ => (ends_expect _ _).bind fun _ => ends_pure _ _

theorem ends_forInitializer {m steps : Nat} (hs : 2 * m + 3 ≤ steps) :
    Ends m (forInitializer steps) 0 := by
  refine ends_peek_bind fun t => ?_
  split
  · next hk => exact .inr ⟨_, rfl, by simp [hk], fun _ => ends_pure _ _⟩
  · next hk =>
    exact .inr ⟨_, rfl, by simp [hk], fun _ =>
      (ends_variableDeclaration (by omega)).bind fun _ => ends_pure _ _⟩
  · exact .inl ((ends_expressionStatement hs).bind fun _ => ends_pure _ _)

theorem ends_forStatement {m steps : Nat} {statement : Rule Stmt} (hs : 2 * m + 3 ≤ steps)
    (h : Ends m statement 0) : Ends m (forStatement statement steps) 0 :=
  (ends_expect m _).bind fun _ => (ends_forInitializer (by omega)).bind fun _ =>
    (ends_clause (by omega) _).bind fun _ => (ends_expect _ _).bind fun _ =>
    (ends_clause (by omega) _).bind fun _ => (ends_expect _ _).bind fun _ =>
    (h.mono (by omega) (Nat.le_refl 0)).bind fun _ => ends_pure _ _

theorem ends_whileStatement {m steps : Nat} {statement : Rule Stmt} (hs : 2 * m + 3 ≤ steps)
    (h : Ends m statement 0) : Ends m (whileStatement statement steps) 0 :=
  (ends_expect m _).bind fun _ => (ends_expression (by omega)).bind fun _ =>
    (ends_expect _ _).bind fun _ => (h.mono (by omega) (Nat.le_refl 0)).bind fun _ => ends_pure _ _

theorem ends_ifStatement {m steps : Nat} {statement : Rule Stmt} (hs : 2 * m + 3 ≤ steps)
    (h : Ends m statement 0) : Ends m (ifStatement statement steps) 0 :=
  (ends_expect m _).bind fun _ => (ends_expression (by omega)).bind fun _ =>
    (ends_expect _ _).bind fun _ => (h.mono (by omega) (Nat.le_refl 0)).bind fun _ =>
    ends_take?_bind (by simp)
      (fun _ _ => (h.mono (by omega) (Nat.le_refl 0)).bind fun _ => ends_pure _ _) (ends_pure _ _)

theorem boundary_suffix (dropped : Token) (ts : List Token) : boundary dropped ts <:+ ts := by
  induction ts generalizing dropped with
  | nil => exact List.suffix_refl _
  | cons t ts ih =>
    unfold boundary
    split
    · exact List.suffix_refl _
    · exact (ih t).trans (List.suffix_cons t ts)

/-- A rule that is passed over when it fails takes a token in any case, unless it begins at the end:
the one at which it failed is dropped. -/
theorem advances_recover {m : Nat} {phrase : Rule Stmt} (h : Ends m phrase 1) :
    Advances m (recover phrase) := by
  intro c hc hend
  have hr := h c hc
  unfold recover
  cases hv : phrase c with
  | ok v c' =>
    rw [hv] at hr
    exact hr
  | fail e c' =>
    rw [hv] at hr
    obtain ⟨hsuffix, hnext⟩ : c.Precedes c' := hr
    show IsDone c 1 (.ok none (resynchronize (c'.record e)))
    unfold resynchronize
    split
    · next hend' =>
      have hne : c'.rest.length ≠ c.rest.length := by
        intro hlen
        have hsame : c'.peek = c.peek := by simp [Cursor.peek, hsuffix.eq_of_length hlen]
        have hatEnd : c'.peek.isEnd = true := hend'
        rw [hsame, hend] at hatEnd
        exact Bool.noConfusion hatEnd
      have hle := hsuffix.length_le
      exact ⟨⟨hsuffix, hnext⟩, by show c'.rest.length + 1 ≤ _; omega⟩
    · next hend' =>
      have hdrop := boundary_suffix c'.peek c'.rest.tail
      have hpos : c'.rest ≠ [] := by
        intro hnil
        exact hend' (by simp [Cursor.atEnd, Cursor.peek, Cursor.record, hnil, Cursor.standIn,
          Token.isEnd])
      have hlen := hdrop.length_le
      have htail := List.length_tail (l := c'.rest)
      have hpos' := List.length_pos_iff.2 hpos
      have hle := hsuffix.length_le
      exact ⟨⟨(hdrop.trans (List.tail_suffix _)).trans hsuffix, hnext⟩,
        by show (boundary c'.peek c'.rest.tail).length + 1 ≤ _; omega⟩
  | exhausted =>
    rw [hv] at hr
    exact hr

/-- How many steps suffice for a statement or a declaration among so many tokens. -/
theorem ends_statement_declaration (steps m : Nat) :
    (2 * m + 4 ≤ steps → Ends m (statement steps) 1) ∧
      (2 * m + 5 ≤ steps → Advances m (declaration steps)) := by
  induction steps generalizing m with
  | zero => exact ⟨fun h => by omega, fun h => by omega⟩
  | succ steps ih =>
    have hinner (hs : 2 * m + 3 ≤ steps) (hm : 0 < m) :
        Ends (m - 1) (statement steps) 0 ∧ Advances (m - 1) (declaration steps) :=
      ⟨((ih (m - 1)).1 (by omega)).mono (Nat.le_refl _) (Nat.zero_le 1),
        (ih (m - 1)).2 (by omega)⟩
    constructor
    · intro hs
      refine ends_peek_bind fun t => ?_
      split
      · next hk =>
        exact .inr ⟨_, rfl, by simp [hk], fun hm =>
          ends_forStatement (by omega) (hinner (by omega) hm).1⟩
      · next hk =>
        exact .inr ⟨_, rfl, by simp [hk], fun hm =>
          ends_ifStatement (by omega) (hinner (by omega) hm).1⟩
      · next hk =>
        exact .inr ⟨_, rfl, by simp [hk], fun hm => (ends_expression (by omega)).bind fun _ =>
          (ends_expect _ _).bind fun _ => ends_pure _ _⟩
      · next hk =>
        exact .inr ⟨_, rfl, by simp [hk], fun hm => (ends_clause (by omega) _).bind fun _ =>
          (ends_expect _ _).bind fun _ => ends_pure _ _⟩
      · next hk =>
        exact .inr ⟨_, rfl, by simp [hk], fun hm =>
          ends_whileStatement (by omega) (hinner (by omega) hm).1⟩
      · next hk =>
        exact .inr ⟨_, rfl, by simp [hk], fun hm =>
          (ends_block (hinner (by omega) hm).2 (by omega)).bind fun _ => ends_pure _ _⟩
      · exact .inl (ends_expressionStatement (by omega))
    · intro hs
      refine advances_recover (ends_peek_bind fun t => ?_)
      split
      · next hk =>
        exact .inr ⟨_, rfl, by simp [hk], fun hm =>
          ends_classDeclaration (hinner (by omega) hm).2 (by omega)⟩
      · next hk =>
        exact .inr ⟨_, rfl, by simp [hk], fun hm =>
          (ends_function (hinner (by omega) hm).2 (by omega) _).bind fun _ => ends_pure _ _⟩
      · next hk =>
        exact .inr ⟨_, rfl, by simp [hk], fun hm => ends_variableDeclaration (by omega)⟩
      · exact .inl ((ih m).1 (by omega))

theorem ends_program {steps m : Nat} (hs : 4 * (m + 1) ≤ steps) : Ends m (program steps) 0 := by
  refine ends_manyUntil (fun c hc hend => ?_) (by omega)
  cases m with
  | zero =>
    have hrest : c.rest = [] := List.eq_nil_of_length_eq_zero (Nat.le_zero.1 hc)
    simp [Cursor.peek, hrest, Cursor.standIn, Token.isEnd] at hend
  | succ m => exact (ends_statement_declaration steps (m + 1)).2 (by omega) c hc hend

end Rule

end LoxLang
