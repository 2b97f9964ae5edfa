import LoxLang.Proofs.Grammar.Reading

/-!
# Expressions are read

Before a token that does not continue it, an expression is read as its derivation says, unless the
steps run out. The rules for operators and calls go on behind their phrase, so what is said of them
is where they stand when the phrase is over.

1. `Rule.Accepts`: a rule reads these tokens as this value.
2. `Grammar.Expression.accepted`: an expression is read before any token that does not continue it.
-/

namespace LoxLang

namespace Kind

/-- An operand without an operator begins with such a token. -/
def StartsPrimary (k : Kind) : Prop :=
  k.literal?.isSome ∨
    k ∈ [.identifier, .keyword .thisWord, .keyword .superWord, .mark .leftParen]

/-- An expression begins with such a token. -/
def StartsExpression (k : Kind) : Prop :=
  k.StartsPrimary ∨ k ∈ [.mark .bang, .mark .minus]

/-- A statement begins with such a token. -/
def StartsStatement (k : Kind) : Prop :=
  k.StartsExpression ∨ k ∈ [.keyword .forWord, .keyword .ifWord, .keyword .printWord,
    .keyword .returnWord, .keyword .whileWord, .mark .leftBrace]

/-- A declaration begins with such a token. -/
def StartsDeclaration (k : Kind) : Prop :=
  k.StartsStatement ∨ k ∈ [.keyword .classWord, .keyword .funWord, .keyword .varWord]

end Kind

/-- The first reply comes to the second: they are the same, unless the steps for the first ran
out. -/
def Reply.ComesTo {α : Type} (got want : Reply α) : Prop :=
  got = .exhausted ∨ got = want

namespace Reply.ComesTo

variable {α : Type} {r₁ r₂ r₃ : Reply α}

theorem of_eq (h : r₁ = r₂) : r₁.ComesTo r₂ := .inr h

theorem refl (r : Reply α) : r.ComesTo r := .inr rfl

theorem exhausted (r : Reply α) : (Reply.exhausted : Reply α).ComesTo r := .inl rfl

theorem trans (h : r₁.ComesTo r₂) (h' : r₂.ComesTo r₃) : r₁.ComesTo r₃ := by
  rcases h with rfl | rfl
  · exact .inl rfl
  · exact h'

end Reply.ComesTo

namespace Rule

variable {α β : Type}

/-! ## Runs of small rules -/

theorem comesTo_bind {first : Rule α} {next : α → Rule β} {c c' : Cursor} {v : α}
    (h : (first c).ComesTo (.ok v c')) : ((first >>= next) c).ComesTo (next v c') := by
  rcases h with h | h
  · exact .inl (bind_exhausted h)
  · exact .inr (bind_ok h)

section

variable {t : Token} {ts : List Token} {n : Nat} {es : List GrammarError}

theorem peek_cons : (⟨t :: ts, n, es⟩ : Cursor).peek = t := rfl

theorem advance_cons (h : t.kind ≠ .eof) :
    (⟨t :: ts, n, es⟩ : Cursor).advance = ⟨ts, n, es⟩ := by
  simp [Cursor.advance, Cursor.atEnd, Cursor.peek, Token.isEnd, h]

theorem run_take {kinds : List Kind} {next : Option Token → Rule β} (hk : .eof ∉ kinds)
    (h : t.kind ∈ kinds) :
    (take? kinds >>= next) ⟨t :: ts, n, es⟩ = next (some t) ⟨ts, n, es⟩ := by
  rw [bind_ok (take?_of_mem h), advance_cons fun he => hk (he ▸ h), peek_cons]

theorem run_pass {kinds : List Kind} {next : Option Token → Rule β} {c : Cursor}
    (h : c.peek.kind ∉ kinds) : (take? kinds >>= next) c = next none c :=
  bind_ok (take?_of_not_mem h)

theorem run_expect {a : Awaited} {next : Token → Rule β} (h : t.kind = a.kind) :
    (expect a >>= next) ⟨t :: ts, n, es⟩ = next t ⟨ts, n, es⟩ := by
  have hpeek : (⟨t :: ts, n, es⟩ : Cursor).peek.kind = a.kind := h
  rw [bind_ok (expect_of_kind hpeek), advance_cons (h ▸ a.kind_ne_eof), peek_cons]

theorem run_peek {next : Token → Rule β} {c : Cursor} :
    (peek >>= next) c = next c.peek c := rfl

theorem run_advance {r : Rule β} (h : t.kind ≠ .eof) :
    (advance >>= fun _ => r) ⟨t :: ts, n, es⟩ = r ⟨ts, n, es⟩ := by
  rw [bind_ok]
  simp only [advance]
  rw [advance_cons h]

end

/-- Before a token whose kind satisfies `p`, the rule `r` reads the tokens `ts` as `v` and notes no
fault, unless its steps run out. -/
def Accepts (p : Kind → Prop) (r : Rule α) (n : Nat) (ts : List Token) (v : α) (n' : Nat) : Prop :=
  ∀ (rest : List Token) (es : List GrammarError), p (rest.headD Cursor.standIn).kind →
    (r ⟨ts ++ rest, n, es⟩).ComesTo (.ok v ⟨rest, n', es⟩)

theorem Accepts.bind {p : Kind → Prop} {first : Rule α} {next : α → Rule β} {n n' : Nat}
    {ts rest : List Token} {v : α} {es : List GrammarError} (h : Accepts p first n ts v n')
    (hp : p (rest.headD Cursor.standIn).kind) :
    ((first >>= next) ⟨ts ++ rest, n, es⟩).ComesTo (next v ⟨rest, n', es⟩) :=
  comesTo_bind (h rest es hp)

theorem accepts_exhausted {p : Kind → Prop} {n n' : Nat} {ts : List Token} {v : α} :
    Accepts p exhausted n ts v n' :=
  fun _ _ _ => .exhausted _

/-- The tokens begin with one whose kind satisfies `p`. -/
def BeginsWith (p : Kind → Prop) (ts : List Token) : Prop :=
  ∃ t ∈ ts.head?, p t.kind

theorem BeginsWith.mono {p q : Kind → Prop} {ts : List Token} (h : BeginsWith p ts)
    (hpq : ∀ k, p k → q k) : BeginsWith q ts := by
  obtain ⟨t, ht, hp⟩ := h
  exact ⟨t, ht, hpq _ hp⟩

theorem BeginsWith.append {p : Kind → Prop} {ts : List Token} (h : BeginsWith p ts)
    (us : List Token) : BeginsWith p (ts ++ us) := by
  obtain ⟨t, ht, hp⟩ := h
  refine ⟨t, ?_, hp⟩
  cases ts with
  | nil => simp at ht
  | cons _ _ => exact ht

theorem beginsWith_cons {p : Kind → Prop} {t : Token} {ts : List Token} (h : p t.kind) :
    BeginsWith p (t :: ts) :=
  ⟨t, rfl, h⟩

theorem BeginsWith.headD {p : Kind → Prop} {ts : List Token} (h : BeginsWith p ts)
    (us : List Token) (t : Token) : p ((ts ++ us).headD t).kind := by
  obtain ⟨u, hu, hp⟩ := h
  cases ts with
  | nil => simp at hu
  | cons _ _ =>
    obtain rfl : _ = u := by simpa using hu
    exact hp

theorem BeginsWith.peek {p : Kind → Prop} {ts : List Token} (h : BeginsWith p ts)
    (us : List Token) (n : Nat) (es : List GrammarError) :
    p (⟨ts ++ us, n, es⟩ : Cursor).peek.kind :=
  h.headD us Cursor.standIn

theorem accepts_unlessNext_some {p : Kind → Prop} {kind : Kind} {phrase : Rule α} {n n' : Nat}
    {ts : List Token} {v : α} (h : Accepts p phrase n ts v n') (hts : BeginsWith (· ≠ kind) ts) :
    Accepts p (unlessNext kind phrase) n ts (some v) n' := by
  intro rest es hrest
  rw [unlessNext, run_peek, if_neg (hts.peek rest n es)]
  exact (h.bind hrest).trans (.refl _)

theorem accepts_unlessNext_none {kind : Kind} {phrase : Rule α} {n : Nat} :
    Accepts (· = kind) (unlessNext kind phrase) n [] none n := by
  intro rest es hrest
  rw [List.nil_append, unlessNext, run_peek, if_pos (by exact hrest)]
  exact .refl _

/-- Below the limit, nothing is noted. -/
theorem run_limit {listed : Listed} {count : Nat} {next : Unit → Rule β} {c : Cursor}
    (h : count < maxArity) : (limit listed count >>= next) c = next () c := by
  rw [bind_ok]
  rw [limit, run_peek, if_neg (by omega)]
  rfl

/-- The last element of a list stands before a token that ends the list. -/
theorem accepts_commaSeparated_one {p : Kind → Prop} {phrase : Rule α} {listed : Listed}
    {n n' steps count : Nat} {ts : List Token} {v : α} (h : Accepts p phrase n ts v n')
    (hp : ∀ k, p k → k ≠ .mark .comma) (hcount : count < maxArity) :
    Accepts p (commaSeparated listed phrase (steps + 1) count) n ts [v] n' := by
  intro rest es hrest
  rw [commaSeparated, run_limit hcount]
  refine (h.bind hrest).trans ?_
  rw [run_pass (by simpa [Cursor.peek] using hp _ hrest)]
  exact .refl _

/-- An element before a comma begins a list. -/
theorem accepts_commaSeparated_more {p q : Kind → Prop} {phrase : Rule α} {listed : Listed}
    {n n₁ n' steps count : Nat} {ts us : List Token} {comma : Token} {v : α} {vs : List α}
    (h : Accepts p phrase n ts v n₁) (hcomma : comma.kind = .mark .comma)
    (hp : p (.mark .comma)) (hcount : count < maxArity)
    (hrest : Accepts q (commaSeparated listed phrase steps (count + 1)) n₁ us vs n') :
    Accepts q (commaSeparated listed phrase (steps + 1) count) n (ts ++ comma :: us) (v :: vs)
      n' := by
  intro rest es hq
  rw [commaSeparated, run_limit hcount, List.append_assoc, List.cons_append]
  refine (h.bind (by simpa [hcomma] using hp)).trans ?_
  rw [run_take (by simp) (by simp [hcomma])]
  exact (hrest.bind hq).trans (.refl _)

theorem accepts_parenthesized_none {listed : Listed} {phrase : Rule α} {steps n : Nat} :
    Accepts (· = .mark .rightParen) (parenthesized listed phrase steps) n [] [] n := by
  intro rest es hrest
  exact (accepts_unlessNext_none.bind hrest).trans (.refl _)

theorem accepts_parenthesized_some {listed : Listed} {phrase : Rule α} {steps n n' : Nat}
    {ts : List Token} {vs : List α}
    (h : Accepts (· = .mark .rightParen) (commaSeparated listed phrase steps 0) n ts vs n')
    (hts : BeginsWith (· ≠ .mark .rightParen) ts) :
    Accepts (· = .mark .rightParen) (parenthesized listed phrase steps) n ts vs n' := by
  intro rest es hrest
  exact ((accepts_unlessNext_some h hts).bind hrest).trans (.refl _)

/-! ## Steps of expressions -/

/-- Neither arguments nor a property access begin with such a token. -/
def EndsCall (k : Kind) : Prop :=
  k ≠ .mark .leftParen ∧ k ≠ .mark .dot

/-- Moreover, such a token is no operator of these levels. -/
def EndsOperators (levels : List Level) (k : Kind) : Prop :=
  EndsCall k ∧ ∀ level ∈ levels, k ∉ level.operators

/-- Moreover, such a token is no equals sign. -/
def EndsExpression (k : Kind) : Prop :=
  EndsOperators Level.all k ∧ k ≠ .mark .equal

theorem endsExpression_comma : EndsExpression (.mark .comma) := by
  simp [EndsExpression, EndsOperators, EndsCall, Level.all]

theorem endsExpression_rightParen : EndsExpression (.mark .rightParen) := by
  simp [EndsExpression, EndsOperators, EndsCall, Level.all]

theorem endsExpression_semicolon : EndsExpression (.mark .semicolon) := by
  simp [EndsExpression, EndsOperators, EndsCall, Level.all]

theorem endsOperators_equal : EndsOperators Level.all (.mark .equal) := by
  simp [EndsOperators, EndsCall, Level.all]

/-- The operators of a level are none of the tighter levels, and begin no call. -/
def Separate : List Level → Prop
  | [] => True
  | level :: tighter =>
    (∀ k ∈ level.operators, EndsOperators tighter k) ∧ .eof ∉ level.operators ∧ Separate tighter

theorem separate_all : Separate Level.all := by
  simp [Separate, Level.all, EndsOperators, EndsCall]

/-- Behind the phrase, the rule for operands has come to the accesses that may follow. -/
def CarriesCall (steps n : Nat) (ts : List Token) (e : Expr) (n' : Nat) : Prop :=
  ∀ (rest : List Token) (es : List GrammarError), ∃ k,
    ((primary (expression steps) >>= accesses (expression steps) steps) ⟨ts ++ rest, n, es⟩).ComesTo
      (accesses (expression steps) k e ⟨rest, n', es⟩)

/-- Behind the phrase, the rule for operators has come to the next operator of the loosest level. -/
def CarriesOperators : (levels : List Level) → (steps n : Nat) → List Token → Expr → Nat → Prop
  | [], steps, n, ts, e, n' => Accepts EndsCall (unary steps) n ts e n'
  | level :: levels, steps, n, ts, e, n' =>
    ∀ (rest : List Token) (es : List GrammarError),
      EndsOperators levels (rest.headD Cursor.standIn).kind → ∃ k,
        (chain level (chains levels (unary steps) steps) steps ⟨ts ++ rest, n, es⟩).ComesTo
          (chainFrom level (chains levels (unary steps) steps) k e ⟨rest, n', es⟩)

theorem carriesCall_primary {steps n n' : Nat} {ts : List Token} {e : Expr}
    (h : Accepts (fun _ => True) (primary (expression steps)) n ts e n') :
    CarriesCall steps n ts e n' :=
  fun _ _ => ⟨steps, h.bind trivial⟩

theorem CarriesCall.get {steps n n' : Nat} {ts : List Token} {object : Expr} {dot name : Token}
    (h : CarriesCall steps n ts object n') (hdot : dot.kind = .mark .dot)
    (hname : name.kind = .identifier) :
    CarriesCall steps n (ts ++ [dot, name]) (.get object name) n' := by
  intro rest es
  obtain ⟨k, hrun⟩ := h (dot :: name :: rest) es
  rw [List.append_assoc, List.cons_append, List.cons_append, List.nil_append]
  cases k with
  | zero => exact ⟨0, hrun.trans (.exhausted _)⟩
  | succ k =>
    refine ⟨k, hrun.trans ?_⟩
    rw [accesses, run_pass (by simp [peek_cons, hdot])]
    show ((take? [.mark .dot] >>= _) _).ComesTo _
    rw [run_take (by simp) (by simp [hdot])]
    exact .of_eq (run_expect hname)

theorem CarriesCall.call {steps n n₁ n' : Nat} {ts us : List Token} {callee : Expr}
    {arguments : List Expr} {opening close : Token} (h : CarriesCall steps n ts callee n₁)
    (hopening : opening.kind = .mark .leftParen)
    (hargs : ∀ k, Accepts (· = .mark .rightParen)
      (parenthesized .arguments (expression steps) k) n₁ us arguments n')
    (hclose : close.kind = .mark .rightParen) :
    CarriesCall steps n (ts ++ opening :: (us ++ [close])) (.call callee close arguments) n' := by
  intro rest es
  obtain ⟨k, hrun⟩ := h (opening :: (us ++ close :: rest)) es
  have hsplit : (ts ++ opening :: (us ++ [close])) ++ rest =
      ts ++ opening :: (us ++ close :: rest) := by simp
  rw [hsplit]
  cases k with
  | zero => exact ⟨0, hrun.trans (.exhausted _)⟩
  | succ k =>
    refine ⟨k, hrun.trans ?_⟩
    rw [accesses, run_take (by simp) (by simp [hopening])]
    refine ((hargs k).bind (by exact hclose)).trans ?_
    exact .of_eq (run_expect hclose)

theorem CarriesCall.accepts_unary {steps n n' : Nat} {ts : List Token} {e : Expr}
    (h : CarriesCall steps n ts e n') (hts : BeginsWith Kind.StartsPrimary ts) :
    Accepts EndsCall (unary (steps + 1)) n ts e n' := by
  intro rest es hrest
  have hpeek : (⟨ts ++ rest, n, es⟩ : Cursor).peek.kind ∉ [Kind.mark .bang, Kind.mark .minus] := by
    have hfirst := hts.peek rest n es
    intro hmem
    simp only [List.mem_cons, List.not_mem_nil, or_false] at hmem
    rcases hmem with hk | hk <;> rw [hk] at hfirst <;>
      simp [Kind.StartsPrimary, Kind.literal?] at hfirst
  rw [unary, run_pass hpeek]
  obtain ⟨k, hrun⟩ := h rest es
  refine hrun.trans ?_
  cases k with
  | zero => exact .exhausted _
  | succ k =>
    rw [accesses, run_pass (by simpa [Cursor.peek] using hrest.1)]
    show ((take? [.mark .dot] >>= _) _).ComesTo _
    rw [run_pass (by simpa [Cursor.peek] using hrest.2)]
    exact .refl _

theorem accepts_unary_operator {steps n n' : Nat} {ts : List Token} {operator : Token}
    {operand : Expr} (hop : operator.kind = .mark .bang ∨ operator.kind = .mark .minus)
    (h : Accepts EndsCall (unary steps) n ts operand n') :
    Accepts EndsCall (unary (steps + 1)) n (operator :: ts) (.unary operator operand) n' := by
  intro rest es hrest
  rw [unary, List.cons_append, run_take (by simp) (by simpa using hop)]
  exact (h.bind hrest).trans (.refl _)

theorem CarriesOperators.accepts {levels : List Level} {steps n n' : Nat} {ts : List Token}
    {e : Expr} (h : CarriesOperators levels steps n ts e n') :
    Accepts (EndsOperators levels) (chains levels (unary steps) steps) n ts e n' := by
  intro rest es hrest
  cases levels with
  | nil => exact h rest es hrest.1
  | cons level levels =>
    obtain ⟨k, hrun⟩ := h rest es ⟨hrest.1, fun l hm => hrest.2 l (List.mem_cons_of_mem _ hm)⟩
    refine hrun.trans ?_
    cases k with
    | zero => exact .exhausted _
    | succ k =>
      rw [chainFrom, run_pass (by simpa [Cursor.peek] using hrest.2 level List.mem_cons_self)]
      exact .refl _

theorem CarriesOperators.tighter {level : Level} {levels : List Level} {steps n n' : Nat}
    {ts : List Token} {e : Expr} (h : CarriesOperators levels steps n ts e n') :
    CarriesOperators (level :: levels) steps n ts e n' :=
  fun _ _ hrest => ⟨steps, h.accepts.bind hrest⟩

theorem CarriesOperators.operator {level : Level} {levels : List Level} {steps n n₁ n' : Nat}
    {ts us : List Token} {left right : Expr} {operator : Token}
    (h : CarriesOperators (level :: levels) steps n ts left n₁) (hl : Separate (level :: levels))
    (hop : operator.kind ∈ level.operators)
    (hright : CarriesOperators levels steps n₁ us right n') :
    CarriesOperators (level :: levels) steps n (ts ++ operator :: us)
      (level.build left operator right) n' := by
  intro rest es hrest
  obtain ⟨k, hrun⟩ := h (operator :: (us ++ rest)) es (hl.1 _ hop)
  rw [List.append_assoc, List.cons_append]
  cases k with
  | zero => exact ⟨0, hrun.trans (.exhausted _)⟩
  | succ k =>
    refine ⟨k, hrun.trans ?_⟩
    rw [chainFrom, run_take hl.2.1 hop]
    exact hright.accepts.bind hrest

/-- What is read as an operand is read so on every level of operators. -/
theorem carriesOperators_of_unary {steps n n' : Nat} {ts : List Token} {e : Expr}
    (h : Accepts EndsCall (unary steps) n ts e n') (levels : List Level) :
    CarriesOperators levels steps n ts e n' := by
  induction levels with
  | nil => exact h
  | cons level levels ih => exact ih.tighter

theorem carriesOperators_of_call {n n' : Nat} {ts : List Token} {e : Expr}
    (h : ∀ steps, CarriesCall steps n ts e n') (hts : BeginsWith Kind.StartsPrimary ts)
    (levels : List Level) (steps : Nat) : CarriesOperators levels steps n ts e n' := by
  refine carriesOperators_of_unary ?_ levels
  cases steps with
  | zero => exact accepts_exhausted
  | succ steps => exact (h steps).accepts_unary hts

/-- An expression that is no assignment ends before a token that is no equals sign. -/
theorem CarriesOperators.accepts_expression {steps n n' : Nat} {ts : List Token} {e : Expr}
    (h : CarriesOperators Level.all steps n ts e n') :
    Accepts EndsExpression (expression (steps + 1)) n ts e n' := by
  intro rest es hrest
  rw [expression]
  refine (h.accepts.bind hrest.1).trans ?_
  rw [run_pass (by simpa [Cursor.peek] using hrest.2)]
  exact .refl _

/-- Behind an equals sign, what was read before it becomes the target of an assignment. -/
theorem CarriesOperators.accepts_assignment {steps n n₁ n₂ n' : Nat} {ts us : List Token}
    {target value e : Expr} {equals : Token} (h : CarriesOperators Level.all steps n ts target n₁)
    (hequals : equals.kind = .mark .equal)
    (hvalue : Accepts EndsExpression (expression steps) n₁ us value n₂)
    (hassign : ∀ rest es, assignTo target equals value ⟨rest, n₂, es⟩ = .ok e ⟨rest, n', es⟩) :
    Accepts EndsExpression (expression (steps + 1)) n (ts ++ equals :: us) e n' := by
  intro rest es hrest
  rw [expression, List.append_assoc, List.cons_append]
  refine (h.accepts.bind (by simpa [hequals] using endsOperators_equal)).trans ?_
  rw [run_take (by simp) (by simp [hequals])]
  exact (hvalue.bind hrest).trans (.of_eq (hassign rest es))

theorem accepts_literal {expression : Rule Expr} {n : Nat} {t : Token} {value : Literal}
    (h : t.kind.literal? = some value) :
    Accepts (fun _ => True) (primary expression) n [t] (.literal value) n := by
  intro rest es _
  have hend : t.kind ≠ .eof := fun he => by simp [he, Kind.literal?] at h
  have hrun : primary expression ⟨t :: rest, n, es⟩ =
      (advance >>= fun _ => pure (.literal value)) ⟨t :: rest, n, es⟩ := by
    rw [primary, run_peek, peek_cons]
    cases hk : t.kind with
    | keyword k => cases k <;> simp [hk, Kind.literal?] at h <;> subst h <;> rfl
    | number _ => simp [hk, Kind.literal?] at h; subst h; rfl
    | string _ => simp [hk, Kind.literal?] at h; subst h; rfl
    | mark _ => simp [hk, Kind.literal?] at h
    | identifier => simp [hk, Kind.literal?] at h
    | eof => simp [hk, Kind.literal?] at h
  rw [List.singleton_append, hrun, run_advance hend]
  exact .refl _

theorem accepts_var {expression : Rule Expr} {n : Nat} {t : Token} (h : t.kind = .identifier) :
    Accepts (fun _ => True) (primary expression) n [t] (.var ⟨n, t⟩) (n + 1) := by
  intro rest es _
  rw [List.singleton_append, primary, run_peek, peek_cons]
  simp only [h]
  rw [run_advance (by simp [h])]
  exact .refl _

theorem accepts_this {expression : Rule Expr} {n : Nat} {t : Token}
    (h : t.kind = .keyword .thisWord) :
    Accepts (fun _ => True) (primary expression) n [t] (.this ⟨n, t⟩) (n + 1) := by
  intro rest es _
  rw [List.singleton_append, primary, run_peek, peek_cons]
  simp only [h]
  rw [run_advance (by simp [h])]
  exact .refl _

theorem accepts_super {expression : Rule Expr} {n : Nat} {t dot method : Token}
    (h : t.kind = .keyword .superWord) (hdot : dot.kind = .mark .dot)
    (hmethod : method.kind = .identifier) :
    Accepts (fun _ => True) (primary expression) n [t, dot, method] (.super ⟨n, t⟩ method)
      (n + 1) := by
  intro rest es _
  rw [List.cons_append, List.cons_append, List.singleton_append, primary, run_peek, peek_cons]
  simp only [h]
  rw [run_advance (by simp [h]), run_expect hdot, run_expect hmethod]
  exact .refl _

theorem accepts_grouping {expression : Rule Expr} {n n' : Nat} {opening close : Token}
    {ts : List Token} {inner : Expr} (hopening : opening.kind = .mark .leftParen)
    (h : Accepts EndsExpression expression n ts inner n')
    (hclose : close.kind = .mark .rightParen) :
    Accepts (fun _ => True) (primary expression) n (opening :: (ts ++ [close])) (.grouping inner)
      n' := by
  intro rest es _
  rw [List.cons_append, List.append_assoc, List.singleton_append, primary, run_peek, peek_cons]
  simp only [hopening]
  rw [run_advance (by simp [hopening])]
  refine (h.bind (by simp [hclose, endsExpression_rightParen])).trans ?_
  rw [run_expect hclose]
  exact .refl _

end Rule

namespace Grammar

open Rule

/-! ## First tokens -/

theorem Primary.begins {n n' : Nat} {ts : List Token} {e : Expr} (h : Primary n ts e n') :
    BeginsWith Kind.StartsPrimary ts := by
  cases h with
  | literal hk => exact beginsWith_cons (.inl (by simp [hk]))
  | this hk => exact beginsWith_cons (.inr (by simp [hk]))
  | var hk => exact beginsWith_cons (.inr (by simp [hk]))
  | super hk => exact beginsWith_cons (.inr (by simp [hk]))
  | grouping hk => exact beginsWith_cons (.inr (by simp [hk]))

theorem Call.begins {n n' : Nat} {ts : List Token} {e : Expr} :
    Call n ts e n' → BeginsWith Kind.StartsPrimary ts
  | .primary h => h.begins
  | .call h _ _ _ _ => h.begins.append _
  | .get h _ _ => h.begins.append _

theorem Unary.begins {n n' : Nat} {ts : List Token} {e : Expr} (h : Unary n ts e n') :
    BeginsWith Kind.StartsExpression ts := by
  cases h with
  | operator hk _ => exact beginsWith_cons (.inr (by simpa using hk))
  | call h => exact h.begins.mono fun _ => .inl

theorem Operators.begins {levels : List Level} {n n' : Nat} {ts : List Token} {e : Expr} :
    Operators levels n ts e n' → BeginsWith Kind.StartsExpression ts
  | .operand h => h.begins
  | .tighter h => h.begins
  | .operator h _ _ => h.begins.append _

theorem Expression.begins {n n' : Nat} {ts : List Token} {e : Expr} (h : Expression n ts e n') :
    BeginsWith Kind.StartsExpression ts := by
  cases h with
  | assign hk _ _ => exact beginsWith_cons (.inl (.inr (by simp [hk])))
  | set h _ _ _ _ => exact (h.begins.append _).mono fun _ => .inl
  | operators h => exact h.begins

theorem Listed.begins {n n' : Nat} {ts : List Token} {es : List Expr} (h : Listed n ts es n') :
    BeginsWith Kind.StartsExpression ts := by
  cases h with
  | one h => exact h.begins
  | more h _ _ => exact h.begins.append _

/-! ## Expressions -/

mutual

/-- An expression is read before any token that neither continues it nor assigns to it. -/
theorem Expression.accepted {n n' : Nat} {ts : List Token} {e : Expr} :
    Expression n ts e n' →
      ∀ steps, Accepts EndsExpression (expression steps) n ts e n'
  | _, 0 => accepts_exhausted
  | .assign hname hequals hvalue, steps + 1 =>
    have htarget := carriesOperators_of_call
      (fun _ => carriesCall_primary (accepts_var hname))
      (beginsWith_cons (.inr (by simp [hname]))) Level.all steps
    htarget.accepts_assignment hequals (hvalue.accepted steps) fun _ _ => rfl
  | .set hobject hdot hname hequals hvalue, steps + 1 => by
    have htarget := carriesOperators_of_call (fun k => (hobject.carried k).get hdot hname)
      (hobject.begins.append _) Level.all steps
    have hset := htarget.accepts_assignment hequals (hvalue.accepted steps) fun _ _ => rfl
    simpa using hset
  | .operators h, steps + 1 => by
    have hcarried := h.carried (ladder_eq_all ▸ separate_all) steps
    rw [ladder_eq_all] at hcarried
    exact hcarried.accepts_expression

theorem Operators.carried {levels : List Level} {n n' : Nat} {ts : List Token} {e : Expr} :
    Operators levels n ts e n' → Separate levels →
      ∀ steps, CarriesOperators levels steps n ts e n'
  | .operand h, _, steps => h.accepted steps
  | .tighter h, hl, steps => (h.carried hl.2.2 steps).tighter
  | .operator hleft hop hright, hl, steps =>
    (hleft.carried hl steps).operator hl hop (hright.carried hl.2.2 steps)

theorem Unary.accepted {n n' : Nat} {ts : List Token} {e : Expr} :
    Unary n ts e n' → ∀ steps, Accepts EndsCall (unary steps) n ts e n'
  | _, 0 => accepts_exhausted
  | .operator hop h, steps + 1 => accepts_unary_operator hop (h.accepted steps)
  | .call h, steps + 1 => (h.carried steps).accepts_unary h.begins

theorem Call.carried {n n' : Nat} {ts : List Token} {e : Expr} :
    Call n ts e n' → ∀ steps, CarriesCall steps n ts e n'
  | .primary h, steps => carriesCall_primary (h.accepted steps)
  | .call h hopening hargs hlen hclose, steps =>
    (h.carried steps).call hopening (fun k => hargs.accepted hlen steps k) hclose
  | .get h hdot hname, steps => (h.carried steps).get hdot hname

theorem Arguments.accepted {n n' : Nat} {ts : List Token} {es : List Expr} :
    Arguments n ts es n' → es.length ≤ maxArity → ∀ steps k,
      Accepts (· = .mark .rightParen) (parenthesized .arguments (expression steps) k) n ts es n'
  | .none, _, _, _ => accepts_parenthesized_none
  | .some h, hlen, steps, k =>
    accepts_parenthesized_some (h.accepted 0 (by omega) steps k)
      (h.begins.mono fun k hk he => by
        simp [he, Kind.StartsExpression, Kind.StartsPrimary, Kind.literal?] at hk)

theorem Listed.accepted {n n' : Nat} {ts : List Token} {es : List Expr} :
    Listed n ts es n' → ∀ count, count + es.length ≤ maxArity → ∀ steps k,
      Accepts (· = .mark .rightParen) (commaSeparated .arguments (expression steps) k count) n ts
        es n'
  | _, _, _, _, 0 => accepts_exhausted
  | .one h, count, hlen, steps, k + 1 => by
    have he : Accepts (· = .mark .rightParen) (expression steps) n ts _ n' :=
      fun rest es hrest => h.accepted steps rest es (hrest ▸ endsExpression_rightParen)
    exact accepts_commaSeparated_one he (by simp) hlen
  | .more h hcomma hrest, count, hlen, steps, k + 1 => by
    rw [List.length_cons] at hlen
    exact accepts_commaSeparated_more (h.accepted steps) hcomma endsExpression_comma (by omega)
      (hrest.accepted (count + 1) (by omega) steps k)

theorem Primary.accepted {n n' : Nat} {ts : List Token} {e : Expr} :
    Primary n ts e n' → ∀ steps,
      Accepts (fun _ => True) (primary (Rule.expression steps)) n ts e n'
  | .literal hk, _ => accepts_literal hk
  | .this hk, _ => accepts_this hk
  | .var hk, _ => accepts_var hk
  | .super hk hdot hmethod, _ => accepts_super hk hdot hmethod
  | .grouping hopening h hclose, steps => accepts_grouping hopening (h.accepted steps) hclose

end

end Grammar

end LoxLang
