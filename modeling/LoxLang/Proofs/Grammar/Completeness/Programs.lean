import LoxLang.Proofs.Grammar.Completeness.Expressions

/-!
# Declarations are read

Statements and declarations are read as their derivations say, like expressions. A statement that
could still have an `else` is not read to its end before one.

1. `Grammar.Statement.accepted`: statements.
2. `Grammar.Declarations.accepted`: declarations one after another, as in a block or a program.
-/

namespace LoxLang

namespace Rule

variable {α β : Type}

theorem accepts_expect {a : Awaited} {n : Nat} {t : Token} (h : t.kind = a.kind) :
    Accepts (fun _ => True) (expect a) n [t] t n := by
  intro rest es _
  have hend := h ▸ a.kind_ne_eof
  simp only [expect, List.singleton_append, peek_cons, h, if_true, advance_cons hend]
  exact .refl _

theorem accepts_manyUntil_nil {p : Kind → Prop} {stops : Token → Bool}
    {phrase : Rule (Option α)} {n : Nat} (hp : ∀ t : Token, p t.kind → stops t) (k : Nat) :
    Accepts p (manyUntil stops phrase k) n [] [] n := by
  intro rest es hrest
  cases k with
  | zero => exact .exhausted _
  | succ k =>
    rw [List.nil_append, manyUntil, run_peek, if_pos (hp _ (by exact hrest))]
    exact .refl _

theorem accepts_manyUntil_cons {p q : Kind → Prop} {stops : Token → Bool}
    {phrase : Rule (Option α)} {n n₁ n' : Nat} {ts us : List Token} {v : α} {vs : List α}
    (h : Accepts q phrase n ts (some v) n₁) (hgo : ∃ t ∈ ts.head?, stops t = false)
    (hq : ∀ rest : List Token, p (rest.headD Cursor.standIn).kind →
      q ((us ++ rest).headD Cursor.standIn).kind)
    (hrest : ∀ k, Accepts p (manyUntil stops phrase k) n₁ us vs n') (k : Nat) :
    Accepts p (manyUntil stops phrase k) n (ts ++ us) (v :: vs) n' := by
  intro rest es hp
  cases k with
  | zero => exact .exhausted _
  | succ k =>
    have hstop : stops (⟨ts ++ us ++ rest, n, es⟩ : Cursor).peek = false := by
      obtain ⟨t, ht, hs⟩ := hgo
      cases ts with
      | nil => simp at ht
      | cons u _ =>
        obtain rfl : u = t := by simpa using ht
        exact hs
    rw [manyUntil, run_peek, hstop, List.append_assoc]
    refine (h.bind (hq rest hp)).trans ?_
    exact ((hrest k).bind hp).trans (.refl _)

theorem accepts_recover {p : Kind → Prop} {phrase : Rule α} {n n' : Nat} {ts : List Token} {v : α}
    (h : Accepts p phrase n ts v n') : Accepts p (recover phrase) n ts (some v) n' := by
  intro rest es hrest
  unfold recover
  rcases h rest es hrest with h | h <;> rw [h]
  · exact .exhausted _
  · exact .refl _

/-- A statement that begins with an expression is nothing else. -/
theorem statement_of_startsExpression {steps : Nat} {c : Cursor}
    (h : c.peek.kind.StartsExpression) : statement (steps + 1) c = expressionStatement steps c := by
  rw [statement, run_peek]
  cases hk : c.peek.kind with
  | keyword k =>
    rw [hk] at h
    cases k <;> simp [Kind.StartsExpression, Kind.StartsPrimary, Kind.literal?] at h <;> rfl
  | mark m =>
    rw [hk] at h
    cases m <;> simp [Kind.StartsExpression, Kind.StartsPrimary, Kind.literal?] at h <;> rfl
  | identifier => rfl
  | number _ => rfl
  | string _ => rfl
  | eof => rfl

/-- A declaration that begins with a statement is nothing else. -/
theorem declaration_of_startsStatement {steps : Nat} {c : Cursor}
    (h : c.peek.kind.StartsStatement) :
    declaration (steps + 1) c = recover (statement steps) c := by
  rw [declaration]
  unfold recover
  rw [run_peek]
  cases hk : c.peek.kind with
  | keyword k =>
    rw [hk] at h
    cases k <;>
      simp [Kind.StartsStatement, Kind.StartsExpression, Kind.StartsPrimary, Kind.literal?] at h <;>
      rfl
  | mark _ => rfl
  | identifier => rfl
  | number _ => rfl
  | string _ => rfl
  | eof => rfl

/-- A statement that may still have an `else`, if `d` says so, does not end before one. -/
def EndsStatement (d : Bool) (k : Kind) : Prop :=
  d = true → k ≠ .keyword .elseWord

theorem EndsStatement.of_closed (k : Kind) : EndsStatement false k :=
  fun h => Bool.noConfusion h

/-- A keyword or brace that is taken leads to the rule for what follows it. -/
theorem accepts_statement_word {p : Kind → Prop} {steps n n' : Nat} {t : Token} {ts : List Token}
    {s : Stmt} {r : Rule Stmt} (ht : t.kind ≠ .eof)
    (hrun : ∀ c : Cursor, c.peek = t → statement (steps + 1) c = (advance >>= fun _ => r) c)
    (h : Accepts p r n ts s n') : Accepts p (statement (steps + 1)) n (t :: ts) s n' := by
  intro rest es hrest
  rw [List.cons_append, hrun _ rfl, run_advance ht]
  exact h rest es hrest

theorem accepts_declaration_word {p : Kind → Prop} {steps n n' : Nat} {t : Token}
    {ts : List Token} {s : Stmt} {r : Rule Stmt} (ht : t.kind ≠ .eof)
    (hrun : ∀ c : Cursor, c.peek = t →
      declaration (steps + 1) c = recover (advance >>= fun _ => r) c)
    (h : Accepts p r n ts s n') : Accepts p (declaration (steps + 1)) n (t :: ts) (some s) n' := by
  have hword : Accepts p (advance >>= fun _ => r) n (t :: ts) s n' := by
    intro rest es hrest
    rw [List.cons_append, run_advance ht]
    exact h rest es hrest
  intro rest es hrest
  rw [hrun ⟨t :: ts ++ rest, n, es⟩ rfl]
  exact accepts_recover hword rest es hrest

/-- An expression and the semicolon behind it. -/
theorem accepts_terminated {a : Awaited} (ha : a.kind = .mark .semicolon) {phrase : Rule α}
    {p : Kind → Prop} (hp : p (.mark .semicolon)) {n n' : Nat} {ts : List Token} {v : α}
    {semicolon : Token} (h : Accepts p phrase n ts v n') (hs : semicolon.kind = .mark .semicolon)
    (build : α → β) :
    Accepts (fun _ => True) (do let v ← phrase; let _ ← expect a; return build v) n
      (ts ++ [semicolon]) (build v) n' := by
  intro rest es _
  rw [List.append_assoc, List.singleton_append]
  refine (h.bind (by simpa [hs] using hp)).trans ?_
  rw [run_expect (hs.trans ha.symm)]
  exact .refl _

end Rule

namespace Grammar

open Rule

/-! ## First tokens -/

theorem Statement.begins {d : Bool} {n n' : Nat} {ts : List Token} {s : Stmt}
    (h : Statement d n ts s n') : BeginsWith Kind.StartsStatement ts := by
  cases h with
  | expression h _ => exact (h.begins.append _).mono fun _ => .inl
  | print hk => exact beginsWith_cons (.inr (by simp [hk]))
  | ret hk => exact beginsWith_cons (.inr (by simp [hk]))
  | block h =>
    cases h with
    | braces hk => exact beginsWith_cons (.inr (by simp [hk]))
  | whileDo hk => exact beginsWith_cons (.inr (by simp [hk]))
  | forLoop hk => exact beginsWith_cons (.inr (by simp [hk]))
  | ifThen hk => exact beginsWith_cons (.inr (by simp [hk]))
  | ifElse hk => exact beginsWith_cons (.inr (by simp [hk]))

theorem Declaration.begins {n n' : Nat} {ts : List Token} {s : Stmt}
    (h : Declaration n ts s n') : BeginsWith Kind.StartsDeclaration ts := by
  cases h with
  | classDecl hk => exact beginsWith_cons (.inr (by simp [hk]))
  | funDecl hk => exact beginsWith_cons (.inr (by simp [hk]))
  | varDecl hk => exact beginsWith_cons (.inr (by simp [hk]))
  | statement h => exact h.begins.mono fun _ => .inl

/-! ## Parts of statements -/

theorem Clause.accepted {n n' : Nat} {ts : List Token} {o : Option Expr} {kind : Kind}
    (hkind : EndsExpression kind) (hstart : ¬kind.StartsExpression) (h : Clause n ts o n')
    (steps : Nat) : Accepts (· = kind) (unlessNext kind (expression steps)) n ts o n' := by
  cases h with
  | none => exact accepts_unlessNext_none
  | some h =>
    have he : Accepts (· = kind) (expression steps) n ts _ n' :=
      fun rest es hrest => h.accepted steps rest es (hrest ▸ hkind)
    exact accepts_unlessNext_some he (h.begins.mono fun k hk hkk => hstart (hkk ▸ hk))

theorem not_startsExpression_semicolon : ¬(Kind.mark .semicolon).StartsExpression := by
  simp [Kind.StartsExpression, Kind.StartsPrimary, Kind.literal?]

theorem not_startsExpression_rightParen : ¬(Kind.mark .rightParen).StartsExpression := by
  simp [Kind.StartsExpression, Kind.StartsPrimary, Kind.literal?]

theorem Variable.accepted {n n' : Nat} {ts : List Token} {s : Stmt} (h : Variable n ts s n')
    (steps : Nat) : Accepts (fun _ => True) (variableDeclaration steps) n ts s n' := by
  intro rest es hrest
  cases h with
  | bare hname hs =>
    rw [List.cons_append, variableDeclaration, run_expect hname]
    rw [List.cons_append, run_pass (by simp [peek_cons, hs])]
    exact .of_eq (run_expect hs)
  | @initialized _ name _ _ _ _ hname hequals hvalue hs =>
    rw [List.cons_append, variableDeclaration, run_expect hname]
    rw [List.cons_append, run_take (by simp) (by simp [hequals])]
    exact accepts_terminated (a := .variableEnd) rfl endsExpression_semicolon
      (hvalue.accepted steps) hs (fun v => Stmt.varDecl name (some v))
      rest es trivial

theorem Initializer.accepted {n n' : Nat} {ts : List Token} {o : Option Stmt}
    (h : Initializer n ts o n') (steps : Nat) :
    Accepts (fun _ => True) (forInitializer steps) n ts o n' := by
  intro rest es _
  cases h with
  | none hs =>
    rw [List.singleton_append, forInitializer, run_peek, peek_cons]
    simp only [hs]
    rw [run_advance (by simp [hs])]
    exact .refl _
  | declaration hword h =>
    rw [List.cons_append, forInitializer, run_peek, peek_cons]
    simp only [hword]
    rw [run_advance (by simp [hword])]
    exact ((h.accepted steps).bind trivial).trans (.refl _)
  | expression h hs =>
    have hstatement := accepts_terminated (a := .expressionEnd) rfl endsExpression_semicolon
      (h.accepted steps) hs Stmt.expression
    have hrun : ∀ c : Cursor, c.peek.kind.StartsExpression →
        forInitializer steps c = (do return some (← expressionStatement steps) : Rule _) c := by
      intro c hc
      rw [forInitializer, run_peek]
      cases hk : c.peek.kind with
      | keyword k =>
        rw [hk] at hc
        cases k <;> simp [Kind.StartsExpression, Kind.StartsPrimary, Kind.literal?] at hc <;> rfl
      | mark m =>
        rw [hk] at hc
        cases m <;> simp [Kind.StartsExpression, Kind.StartsPrimary, Kind.literal?] at hc <;> rfl
      | identifier => rfl
      | number _ => rfl
      | string _ => rfl
      | eof => rfl
    rw [hrun _ ((h.begins.append _).peek rest n es)]
    exact (hstatement.bind trivial).trans (.refl _)

theorem Names.begins {ts names : List Token} (h : Names ts names) :
    BeginsWith (· ≠ .mark .rightParen) ts := by
  cases h with
  | one hk => exact beginsWith_cons (by simp [hk])
  | more hk _ _ => exact beginsWith_cons (by simp [hk])

theorem Names.accepted {ts names : List Token} (h : Names ts names) {n count : Nat}
    (hlen : count + names.length ≤ maxArity) (k : Nat) :
    Accepts (· = .mark .rightParen) (commaSeparated .parameters (expect .parameterName) k count) n
      ts names n := by
  induction h generalizing count k with
  | one hname =>
    cases k with
    | zero => exact accepts_exhausted
    | succ k =>
      exact accepts_commaSeparated_one (fun rest es _ => accepts_expect hname rest es trivial)
        (by simp) hlen
  | more hname hcomma _ ih =>
    cases k with
    | zero => exact accepts_exhausted
    | succ k =>
      rw [List.length_cons] at hlen
      have hrest : count + 1 + _ ≤ maxArity → _ := fun hlen => ih hlen k
      exact accepts_commaSeparated_more (accepts_expect hname) hcomma trivial (by omega)
        (hrest (by omega))

theorem Parameters.accepted {ts names : List Token} (h : Parameters ts names) (n k : Nat) :
    Accepts (· = .mark .rightParen) (parenthesized .parameters (expect .parameterName) k) n ts
      names n := by
  cases h with
  | none => exact accepts_parenthesized_none
  | some h hlen => exact accepts_parenthesized_some (h.accepted (by omega) k) h.begins

theorem Superclass.accepted {n n' : Nat} {ts : List Token} {o : Option Occurrence}
    (h : Superclass n ts o n') : Accepts (· = .mark .leftBrace) superclass n ts o n' := by
  intro rest es hrest
  cases h with
  | none =>
    have hpeek : (⟨rest, n, es⟩ : Cursor).peek.kind = .mark .leftBrace := hrest
    rw [List.nil_append, superclass, run_pass (by simp [hpeek])]
    exact .refl _
  | some hless hname =>
    rw [List.cons_append, superclass, run_take (by simp) (by simp [hless]), List.singleton_append]
    exact .of_eq (run_expect hname)

/-! ## Statements and declarations -/

theorem Declarations.headD_ne_else {n n' : Nat} {ts : List Token} {body : List Stmt}
    (h : Declarations n ts body n') {rest : List Token}
    (hrest : (rest.headD Cursor.standIn).kind ≠ .keyword .elseWord) :
    ((ts ++ rest).headD Cursor.standIn).kind ≠ .keyword .elseWord := by
  cases h with
  | nil => exact hrest
  | cons h _ =>
    have hfirst : BeginsWith (· ≠ .keyword .elseWord) _ := h.begins.mono fun k hk he => by
      simp [he, Kind.StartsDeclaration, Kind.StartsStatement, Kind.StartsExpression,
        Kind.StartsPrimary, Kind.literal?] at hk
    exact (hfirst.append _).headD rest _

theorem Function.begins {n n' : Nat} {ts : List Token} {decl : FunctionDecl}
    (h : Function n ts decl n') : BeginsWith (· = .identifier) ts := by
  cases h with
  | named hk => exact beginsWith_cons hk

/-- Declarations end at a token whose kind satisfies `p`, and not before. -/
structure IsStop (p : Kind → Prop) (stops : Token → Bool) : Prop where
  ends : ∀ t : Token, p t.kind → stops t
  goes : ∀ t : Token, t.kind.StartsDeclaration → stops t = false
  ne_else : ∀ k, p k → k ≠ .keyword .elseWord

theorem isStop_braces :
    IsStop (· = .mark .rightBrace) fun t => t.isEnd || t.kind = .mark .rightBrace where
  ends := by
    intro t ht
    simp [ht]
  goes := by
    intro t ht
    cases hk : t.kind with
    | eof =>
      simp [hk, Kind.StartsDeclaration, Kind.StartsStatement, Kind.StartsExpression,
        Kind.StartsPrimary, Kind.literal?] at ht
    | mark m =>
      cases m <;> simp [hk, Kind.StartsDeclaration, Kind.StartsStatement, Kind.StartsExpression,
        Kind.StartsPrimary, Kind.literal?, Token.isEnd] at ht ⊢
    | _ => simp [hk, Token.isEnd]
  ne_else := by
    rintro _ rfl
    simp

theorem isStop_end : IsStop (· = .eof) Token.isEnd where
  ends := by
    intro t ht
    simp [Token.isEnd, ht]
  goes := by
    intro t ht
    cases hk : t.kind with
    | eof =>
      simp [hk, Kind.StartsDeclaration, Kind.StartsStatement, Kind.StartsExpression,
        Kind.StartsPrimary, Kind.literal?] at ht
    | _ => simp [hk, Token.isEnd]
  ne_else := by
    rintro _ rfl
    simp

section

variable {statement : Rule Stmt} {d : Bool} {n n₁ n₂ n₃ n' : Nat}
  {word opening close semicolon other : Token} {ts us vs ws : List Token}

theorem accepts_printStatement {e : Expr} (h : Expression n ts e n')
    (hs : semicolon.kind = .mark .semicolon) (steps : Nat) :
    Accepts (EndsStatement false) (printStatement steps) n (ts ++ [semicolon]) (.print e) n' :=
  fun rest es _ => accepts_terminated (a := .printEnd) rfl endsExpression_semicolon
    (h.accepted steps) hs Stmt.print rest es trivial

theorem accepts_returnStatement {value : Option Expr} (h : Clause n ts value n')
    (hs : semicolon.kind = .mark .semicolon) (steps : Nat) :
    Accepts (EndsStatement false) (returnStatement steps word) n (ts ++ [semicolon])
      (.ret word value) n' := by
  intro rest es _
  have hclause := h.accepted endsExpression_semicolon not_startsExpression_semicolon steps
  exact accepts_terminated (a := .returnEnd) rfl (p := (· = .mark .semicolon)) rfl hclause hs
    (Stmt.ret word) rest es trivial

theorem accepts_whileStatement {condition : Expr} {body : Stmt}
    (hopening : opening.kind = .mark .leftParen) (hcondition : Expression n ts condition n₁)
    (hclose : close.kind = .mark .rightParen)
    (hbody : Accepts (EndsStatement d) statement n₁ us body n') (steps : Nat) :
    Accepts (EndsStatement d) (whileStatement statement steps) n
      (opening :: (ts ++ close :: us)) (.whileDo condition body) n' := by
  intro rest es hrest
  rw [List.cons_append, List.append_assoc, List.cons_append, whileStatement, run_expect hopening]
  refine ((hcondition.accepted steps).bind
    (by simpa [hclose] using endsExpression_rightParen)).trans ?_
  rw [run_expect hclose]
  exact (hbody.bind hrest).trans (.refl _)

theorem accepts_forStatement {initializer : Option Stmt} {condition increment : Option Expr}
    {body : Stmt} (hopening : opening.kind = .mark .leftParen)
    (hinitializer : Initializer n ts initializer n₁) (hcondition : Clause n₁ us condition n₂)
    (hs : semicolon.kind = .mark .semicolon) (hincrement : Clause n₂ vs increment n₃)
    (hclose : close.kind = .mark .rightParen)
    (hbody : Accepts (EndsStatement d) statement n₃ ws body n') (steps : Nat) :
    Accepts (EndsStatement d) (forStatement statement steps) n
      (opening :: (ts ++ (us ++ semicolon :: (vs ++ close :: ws))))
      (Stmt.forLoop initializer condition increment body) n' := by
  intro rest es hrest
  have hsplit : (opening :: (ts ++ (us ++ semicolon :: (vs ++ close :: ws)))) ++ rest =
      opening :: (ts ++ (us ++ semicolon :: (vs ++ close :: (ws ++ rest)))) := by simp
  rw [hsplit, forStatement, run_expect hopening]
  refine ((hinitializer.accepted steps).bind trivial).trans ?_
  have hc := hcondition.accepted endsExpression_semicolon not_startsExpression_semicolon steps
  refine (hc.bind (by exact hs)).trans ?_
  rw [run_expect hs]
  have hi := hincrement.accepted endsExpression_rightParen not_startsExpression_rightParen steps
  refine (hi.bind (by exact hclose)).trans ?_
  rw [run_expect hclose]
  exact (hbody.bind hrest).trans (.refl _)

theorem accepts_ifStatement_then {condition : Expr} {thenBranch : Stmt}
    (hopening : opening.kind = .mark .leftParen) (hcondition : Expression n ts condition n₁)
    (hclose : close.kind = .mark .rightParen)
    (hthen : Accepts (EndsStatement d) statement n₁ us thenBranch n') (steps : Nat) :
    Accepts (EndsStatement true) (ifStatement statement steps) n
      (opening :: (ts ++ close :: us)) (.ifThen condition thenBranch) n' := by
  intro rest es hrest
  rw [List.cons_append, List.append_assoc, List.cons_append, ifStatement, run_expect hopening]
  refine ((hcondition.accepted steps).bind
    (by simpa [hclose] using endsExpression_rightParen)).trans ?_
  rw [run_expect hclose]
  refine (hthen.bind fun _ => hrest rfl).trans ?_
  rw [run_pass (by simpa [Cursor.peek] using hrest rfl)]
  exact .refl _

theorem accepts_ifStatement_else {condition : Expr} {thenBranch elseBranch : Stmt}
    (hopening : opening.kind = .mark .leftParen) (hcondition : Expression n ts condition n₁)
    (hclose : close.kind = .mark .rightParen)
    (hthen : Accepts (EndsStatement false) statement n₁ us thenBranch n₂)
    (hother : other.kind = .keyword .elseWord)
    (helse : Accepts (EndsStatement d) statement n₂ vs elseBranch n') (steps : Nat) :
    Accepts (EndsStatement d) (ifStatement statement steps) n
      (opening :: (ts ++ close :: (us ++ other :: vs))) (.ifElse condition thenBranch elseBranch)
      n' := by
  intro rest es hrest
  have hsplit : (opening :: (ts ++ close :: (us ++ other :: vs))) ++ rest =
      opening :: (ts ++ close :: (us ++ other :: (vs ++ rest))) := by simp
  rw [hsplit, ifStatement, run_expect hopening]
  refine ((hcondition.accepted steps).bind
    (by simpa [hclose] using endsExpression_rightParen)).trans ?_
  rw [run_expect hclose]
  refine (hthen.bind (.of_closed _)).trans ?_
  rw [run_take (by simp) (by simp [hother])]
  exact (helse.bind hrest).trans (.refl _)

end

/-- The stop of a block, and of the body of a class. -/
theorem accepts_block {declaration : Rule (Option Stmt)} {steps n n' : Nat} {close : Token}
    {ts : List Token} {body : List Stmt}
    (h : Accepts (· = .mark .rightBrace)
      (manyUntil (fun t => t.isEnd || t.kind = .mark .rightBrace) declaration steps) n ts body n')
    (hclose : close.kind = .mark .rightBrace) :
    Accepts (fun _ => True) (block declaration steps) n (ts ++ [close]) body n' := by
  intro rest es _
  rw [List.append_assoc, List.singleton_append]
  refine (h.bind (by exact hclose)).trans ?_
  rw [run_expect hclose]
  exact .refl _

theorem accepts_function {role : Role} {declaration : Rule (Option Stmt)} {steps n n' : Nat}
    {name opening close brace : Token} {ts us params : List Token} {body : List Stmt}
    (hname : name.kind = .identifier) (hopening : opening.kind = .mark .leftParen)
    (hparams : Parameters ts params) (hclose : close.kind = .mark .rightParen)
    (hbrace : brace.kind = .mark .leftBrace)
    (hbody : Accepts (fun _ => True) (block declaration steps) n us body n') :
    Accepts (fun _ => True) (function role declaration steps) n
      (name :: opening :: (ts ++ close :: brace :: us)) ⟨name, params, body⟩ n' := by
  intro rest es _
  rw [List.cons_append, List.cons_append, List.append_assoc, List.cons_append, List.cons_append,
    function, run_expect hname, run_expect hopening]
  refine ((hparams.accepted n steps).bind (by exact hclose)).trans ?_
  rw [run_expect hclose, run_expect hbrace]
  exact (hbody.bind trivial).trans (.refl _)

theorem accepts_classDeclaration {declaration : Rule (Option Stmt)} {steps n n₁ n' : Nat}
    {name opening close : Token} {ts us : List Token} {parent : Option Occurrence}
    {methods : List FunctionDecl} (hname : name.kind = .identifier)
    (hparent : Superclass n ts parent n₁) (hopening : opening.kind = .mark .leftBrace)
    (hmethods : Accepts (· = .mark .rightBrace)
      (manyUntil (fun t => t.isEnd || t.kind = .mark .rightBrace)
        (do return some (← function .method declaration steps)) steps) n₁ us methods n')
    (hclose : close.kind = .mark .rightBrace) :
    Accepts (fun _ => True) (classDeclaration declaration steps) n
      (name :: (ts ++ opening :: (us ++ [close]))) (.classDecl name parent methods) n' := by
  intro rest es _
  have hsplit : (name :: (ts ++ opening :: (us ++ [close]))) ++ rest =
      name :: (ts ++ opening :: (us ++ close :: rest)) := by simp
  rw [hsplit, classDeclaration, run_expect hname]
  refine (hparent.accepted.bind (by exact hopening)).trans ?_
  rw [run_expect hopening]
  refine (hmethods.bind (by exact hclose)).trans ?_
  rw [run_expect hclose]
  exact .refl _

mutual

theorem Statement.accepted {d : Bool} {n n' : Nat} {ts : List Token} {s : Stmt} :
    Statement d n ts s n' → ∀ steps, Accepts (EndsStatement d) (statement steps) n ts s n'
  | _, 0 => accepts_exhausted
  | .expression h hs, steps + 1 => by
    intro rest es _
    rw [statement_of_startsExpression ((h.begins.append _).peek rest n es)]
    exact accepts_terminated (a := .expressionEnd) rfl endsExpression_semicolon
      (h.accepted steps) hs Stmt.expression rest es trivial
  | .print hword h hs, steps + 1 =>
    accepts_statement_word (by simp [hword]) (fun c hc => by simp [statement, run_peek, hc, hword])
      (accepts_printStatement h hs steps)
  | .ret hword h hs, steps + 1 =>
    accepts_statement_word (by simp [hword]) (fun c hc => by simp [statement, run_peek, hc, hword])
      (accepts_returnStatement h hs steps)
  | .block (.braces hopening hbody hclose), steps + 1 => by
    have hblock := accepts_block (hbody.accepted isStop_braces steps steps) hclose
    have hstatement : Accepts (EndsStatement false)
        (do return Stmt.block (← block (declaration steps) steps)) n _ _ n' :=
      fun rest es _ => (hblock.bind trivial).trans (.refl _)
    exact accepts_statement_word (by simp [hopening])
      (fun c hc => by simp [statement, run_peek, hc, hopening]) hstatement
  | .whileDo hword hopening h hclose hbody, steps + 1 =>
    accepts_statement_word (by simp [hword]) (fun c hc => by simp [statement, run_peek, hc, hword])
      (accepts_whileStatement hopening h hclose (hbody.accepted steps) steps)
  | .forLoop hword hopening hinit hcondition hs hincrement hclose hbody hloop, steps + 1 => by
    obtain rfl := desugars_iff.1 hloop
    exact accepts_statement_word (by simp [hword])
      (fun c hc => by simp [statement, run_peek, hc, hword])
      (accepts_forStatement hopening hinit hcondition hs hincrement hclose (hbody.accepted steps)
        steps)
  | .ifThen hword hopening h hclose hthen, steps + 1 =>
    accepts_statement_word (by simp [hword]) (fun c hc => by simp [statement, run_peek, hc, hword])
      (accepts_ifStatement_then hopening h hclose (hthen.accepted steps) steps)
  | .ifElse hword hopening h hclose hthen hother helse, steps + 1 =>
    accepts_statement_word (by simp [hword]) (fun c hc => by simp [statement, run_peek, hc, hword])
      (accepts_ifStatement_else hopening h hclose (hthen.accepted steps) hother
        (helse.accepted steps) steps)

theorem Declaration.accepted {n n' : Nat} {ts : List Token} {s : Stmt} :
    Declaration n ts s n' → ∀ steps,
      Accepts (· ≠ .keyword .elseWord) (declaration steps) n ts (some s) n'
  | _, 0 => accepts_exhausted
  | .classDecl hword hname hparent hopening hmethods hclose, steps + 1 =>
    accepts_declaration_word (by simp [hword])
      (fun c hc => by simp [declaration, recover, run_peek, hc, hword])
      fun rest es _ => accepts_classDeclaration hname hparent hopening
        (hmethods.accepted steps steps steps) hclose rest es trivial
  | .funDecl hword h, steps + 1 => by
    have hfunction : Accepts (· ≠ .keyword .elseWord)
        (do return Stmt.funDecl (← function .function (declaration steps) steps)) n _ _ n' :=
      fun rest es _ => ((h.accepted .function steps steps).bind trivial).trans (.refl _)
    exact accepts_declaration_word (by simp [hword])
      (fun c hc => by simp [declaration, recover, run_peek, hc, hword]) hfunction
  | .varDecl hword h, steps + 1 =>
    accepts_declaration_word (by simp [hword])
      (fun c hc => by simp [declaration, recover, run_peek, hc, hword])
      fun rest es _ => h.accepted steps rest es trivial
  | .statement h, steps + 1 => by
    intro rest es hrest
    rw [declaration_of_startsStatement (h.begins.peek rest n es)]
    exact accepts_recover (h.accepted steps) rest es fun _ => hrest

theorem Declarations.accepted {n n' : Nat} {ts : List Token} {body : List Stmt}
    {p : Kind → Prop} {stops : Token → Bool} :
    Declarations n ts body n' → IsStop p stops → ∀ steps k,
      Accepts p (manyUntil stops (declaration steps) k) n ts body n'
  | .nil, hstop, _, k => accepts_manyUntil_nil hstop.ends k
  | .cons h hrest, hstop, steps, k => by
    obtain ⟨t, ht, hk⟩ := h.begins
    exact accepts_manyUntil_cons (h.accepted steps) ⟨t, ht, hstop.goes t hk⟩
      (fun rest hr => hrest.headD_ne_else (hstop.ne_else _ hr)) (hrest.accepted hstop steps) k

theorem Function.accepted {n n' : Nat} {ts : List Token} {decl : FunctionDecl} :
    Function n ts decl n' → ∀ role steps k,
      Accepts (fun _ => True) (function role (declaration steps) k) n ts decl n'
  | .named hname hopening hparams hclose (.braces hbrace hbody hend), _, steps, k =>
    accepts_function hname hopening hparams hclose hbrace
      (accepts_block (hbody.accepted isStop_braces steps k) hend)

theorem Methods.accepted {n n' : Nat} {ts : List Token} {methods : List FunctionDecl} :
    Methods n ts methods n' → ∀ steps k₁ k, Accepts (· = .mark .rightBrace)
      (manyUntil (fun t => t.isEnd || t.kind = .mark .rightBrace)
        (do return some (← function .method (declaration steps) k₁)) k) n ts methods n'
  | .nil, _, _, k => accepts_manyUntil_nil isStop_braces.ends k
  | .cons h hrest, steps, k₁, k => by
    obtain ⟨t, ht, hk⟩ := h.begins
    have hmethod : Accepts (fun _ => True)
        (do return some (← function .method (declaration steps) k₁)) n _ (some _) _ :=
      fun rest es _ => ((h.accepted .method steps k₁).bind trivial).trans (.refl _)
    exact accepts_manyUntil_cons hmethod
      ⟨t, ht, isStop_braces.goes t (.inl (.inl (.inl (.inr (by simp [hk])))))⟩
      (fun _ _ => trivial) (hrest.accepted steps k₁) k

end

end Grammar

end LoxLang
