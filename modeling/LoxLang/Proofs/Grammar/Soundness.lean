import LoxLang.Proofs.Grammar.Reading

/-!
# Rules read what the grammar derives

Each rule that finds no fault has taken the tokens of its nonterminal and built the tree that the
derivation gives them. The rules follow the grammar, but for two places: the rules for operators and
calls carry what they have read so far along with them, and an assignment is only recognized behind
its target, which was read as an operand.

1. `reads_expression`: expressions.
2. `reads_program`: whole programs.
-/

namespace LoxLang

namespace Grammar

/-- What is no operator expression was read without operators. -/
theorem Operators.unary {levels : List Level} (hl : ∀ level ∈ levels, level.Proper) {n n' : Nat}
    {ts : List Token} {e : Expr} (h : Operators levels n ts e n')
    (he : ∀ left operator right,
      e ≠ .binary left operator right ∧ e ≠ .logical left operator right) : Unary n ts e n' := by
  induction levels with
  | nil =>
    cases h with
    | operand h => exact h
  | cons level levels ih =>
    cases h with
    | tighter h => exact ih (fun l hm => hl l (List.mem_cons_of_mem _ hm)) h
    | @operator _ _ _ _ _ operator _ _ left right _ _ _ =>
      rcases (hl level List.mem_cons_self).2 left operator right with hb | hb
      · exact absurd hb (he left operator right).1
      · exact absurd hb (he left operator right).2

/-- A variable was read from its name alone. -/
theorem Operators.of_var {n n' : Nat} {ts : List Token} {o : Occurrence}
    (h : Operators ladder n ts (.var o) n') :
    o.token.kind = .identifier ∧ ts = [o.token] ∧ n' = n + 1 := by
  have hu := h.unary (fun _ hm => Level.proper_of_mem_all hm) (by simp)
  cases hu with
  | call hc =>
    cases hc with
    | primary hp =>
      cases hp with
      | var hk => exact ⟨hk, rfl, rfl⟩

/-- A property was read from its object, a dot and a name. -/
theorem Operators.of_get {n n' : Nat} {ts : List Token} {object : Expr} {name : Token}
    (h : Operators ladder n ts (.get object name) n') :
    ∃ us dot, ts = us ++ [dot, name] ∧ Call n us object n' ∧ dot.kind = .mark .dot ∧
      name.kind = .identifier := by
  have hu := h.unary (fun _ hm => Level.proper_of_mem_all hm) (by simp)
  cases hu with
  | call hc =>
    cases hc with
    | primary hp => cases hp
    | get hobject hdot hname => exact ⟨_, _, rfl, hobject, hdot, hname⟩

end Grammar

namespace Rule

open Grammar

/-! ## Expressions -/

/-- Operators of one level continue what stands to the left of them. -/
theorem reads_chainFrom {level : Level} {levels : List Level} (hl : .eof ∉ level.operators)
    {operand : Rule Expr} (h : Reads operand fun _ => Operators levels) (steps : Nat)
    (left : Expr) :
    Reads (chainFrom level operand steps left) fun _ n ts e n' =>
      ∀ {m us}, Operators (level :: levels) m us left n →
        Operators (level :: levels) m (us ++ ts) e n' := by
  induction steps generalizing left with
  | zero => exact reads_exhausted
  | succ steps ih =>
    refine reads_take?_bind hl ?_ ?_
    · intro operator hk
      refine h.bind fun right => (ih (level.build left operator right)).mono ?_
      intro _ n₁ us e n' hrest n ts hright m vs hleft
      simpa using hrest (hleft.operator hk hright)
    · refine reads_pure fun _ n m us hleft => ?_
      simpa using hleft

theorem reads_chains {operand : Rule Expr} (h : Reads operand fun _ => Unary) (steps : Nat)
    {levels : List Level} (hl : ∀ level ∈ levels, level.Proper) :
    Reads (chains levels operand steps) fun _ => Operators levels := by
  induction levels with
  | nil => exact h.mono .operand
  | cons level levels ih =>
    have htighter := ih fun l hm => hl l (List.mem_cons_of_mem _ hm)
    have heof := (hl level List.mem_cons_self).1
    refine htighter.bind fun left => (reads_chainFrom heof htighter steps left).mono ?_
    intro _ n₁ us e n' hrest n ts hleft
    exact hrest (.tighter hleft)

/-- Behind an equals sign, a variable or a property becomes an assignment; nothing else does without
a fault. -/
theorem reads_assignTo (target : Expr) (equals : Token) (value : Expr) :
    Reads (assignTo target equals value) fun _ n ts e n' =>
      ts = [] ∧ ((∃ o, target = .var o ∧ e = .assign ⟨n, o.token⟩ value ∧ n' = n + 1) ∨
        (∃ object name, target = .get object name ∧ e = .set object name value ∧ n' = n)) := by
  unfold assignTo
  split
  · next o =>
    refine reads_freshId_bind fun id => reads_pure ?_
    rintro _ _ rfl
    exact ⟨rfl, .inl ⟨o, rfl, rfl, rfl⟩⟩
  · next object name =>
    exact reads_pure fun _ n => ⟨rfl, .inr ⟨object, name, rfl, rfl, rfl⟩⟩
  · have hfault := reads_record (R := fun _ _ _ _ _ => False) (Site.ofToken equals) .invalidTarget
    exact hfault.bind fun _ => reads_pure fun _ _ _ _ hf => hf.elim

/-- An expression that may be an assignment, given what reads its operands and its value. -/
theorem reads_assignment {operators value : Rule Expr}
    (ho : Reads operators fun _ => Operators ladder) (hv : Reads value fun _ => Expression) :
    Reads (do
      let left ← operators
      match ← take? [.mark .equal] with
      | none => return left
      | some equals =>
        let value ← value
        assignTo left equals value) fun _ => Expression := by
  refine ho.bind fun left => reads_take?_bind (by simp) ?_ ?_
  · intro equals hk
    have hk : equals.kind = .mark .equal := by simpa using hk
    refine hv.bind fun v => (reads_assignTo left equals v).mono ?_
    rintro _ n₁ _ e n' ⟨rfl, ⟨o, rfl, rfl, rfl⟩ | ⟨object, name, rfl, rfl, rfl⟩⟩ n us hv m ts hleft
    · obtain ⟨hname, rfl, rfl⟩ := hleft.of_var
      simpa using Expression.assign hname hk hv
    · obtain ⟨us, dot, rfl, hobject, hdot, hname⟩ := hleft.of_get
      simpa using Expression.set hobject hdot hname hk hv
  · refine reads_pure fun _ n' n ts hleft => ?_
    simpa using Expression.operators hleft

theorem reads_primary {expression : Rule Expr} (h : Reads expression fun _ => Expression) :
    Reads (primary expression) fun _ => Primary := by
  refine reads_peek_bind fun t => ?_
  have hliteral {value : Literal} (ht : t.kind.literal? = some value) :
      t.kind ≠ .eof ∧
        Reads (Pure.pure (.literal value)) fun _ n us v n' => Primary n (t :: us) v n' :=
    ⟨fun he => by simp [he, Kind.literal?] at ht, reads_pure fun _ _ => .literal ht⟩
  split
  · next hk => exact .inr ⟨_, rfl, hliteral (by simp [hk, Kind.literal?])⟩
  · next hk => exact .inr ⟨_, rfl, hliteral (by simp [hk, Kind.literal?])⟩
  · next hk => exact .inr ⟨_, rfl, hliteral (by simp [hk, Kind.literal?])⟩
  · next hk => exact .inr ⟨_, rfl, hliteral (by simp [hk, Kind.literal?])⟩
  · next hk => exact .inr ⟨_, rfl, hliteral (by simp [hk, Kind.literal?])⟩
  · next hk =>
    refine .inr ⟨_, rfl, by simp [hk], reads_expect_bind fun dot hdot =>
      reads_expect_bind fun method hmethod => reads_freshId_bind fun id => reads_pure ?_⟩
    rintro _ _ rfl
    exact .super hk hdot hmethod
  · next hk =>
    refine .inr ⟨_, rfl, by simp [hk], reads_freshId_bind fun id => reads_pure ?_⟩
    rintro _ _ rfl
    exact .this hk
  · next hk =>
    refine .inr ⟨_, rfl, by simp [hk], reads_freshId_bind fun id => reads_pure ?_⟩
    rintro _ _ rfl
    exact .var hk
  · next hk =>
    refine .inr ⟨_, rfl, by simp [hk], h.bind fun inner =>
      reads_expect_bind fun close hclose => reads_pure fun _ n' n ts hinner => ?_⟩
    exact .grouping hk hinner hclose
  · exact .inl (reads_fail _)

/-- Calls and property accesses continue the object before them. -/
theorem reads_accesses {expression : Rule Expr} (h : Reads expression fun _ => Expression)
    (steps : Nat) (object : Expr) :
    Reads (accesses expression steps object) fun _ n ts e n' =>
      ∀ {m us}, Call m us object n → Call m (us ++ ts) e n' := by
  induction steps generalizing object with
  | zero => exact reads_exhausted
  | succ steps ih =>
    have harguments : Reads (parenthesized .arguments expression steps) fun _ n ts vs n' =>
        Arguments n ts vs n' ∧ vs.length ≤ maxArity :=
      reads_parenthesized (Q := Grammar.Listed) h .one .more (fun _ => ⟨.none, Nat.zero_le _⟩)
        (fun hl hlen => ⟨.some hl, hlen⟩) steps
    refine reads_take?_bind (by simp) ?_ (reads_take?_bind (by simp) ?_ ?_)
    · intro opening hopening
      refine harguments.bind fun arguments => reads_expect_bind fun close hclose =>
        (ih (.call object close arguments)).mono ?_
      rintro _ n₁ us e n' hr n ts ⟨hargs, hlen⟩ m vs hobject
      simpa using hr (hobject.call (by simpa using hopening) hargs hlen hclose)
    · intro dot hdot
      refine reads_expect_bind fun name hname => (ih (.get object name)).mono ?_
      intro _ n us e n' hr m ts hobject
      simpa using hr (hobject.get (by simpa using hdot) hname)
    · refine reads_pure fun _ n m us hobject => ?_
      simpa using hobject

/-- An operand, given what reads the operand of a unary operator and an expression inside. -/
theorem reads_operand {operand expression : Rule Expr} (ho : Reads operand fun _ => Unary)
    (he : Reads expression fun _ => Expression) (steps : Nat) :
    Reads (do
      match ← take? [.mark .bang, .mark .minus] with
      | some operator =>
        let operand ← operand
        return .unary operator operand
      | none =>
        let object ← primary expression
        accesses expression steps object) fun _ => Unary := by
  refine reads_take?_bind (by simp) ?_ ?_
  · intro operator hk
    refine ho.bind fun operand => reads_pure fun _ n' n ts hoperand => ?_
    simpa using Unary.operator (by simpa using hk) hoperand
  · refine (reads_primary he).bind fun object => (reads_accesses he steps object).mono ?_
    intro _ n₁ us e n' hr n ts hobject
    exact .call (hr (.primary hobject))

/-- The rules for expressions and operands, which call each other with fewer steps. -/
theorem reads_expression_unary (steps : Nat) :
    (Reads (expression steps) fun _ => Expression) ∧ Reads (unary steps) fun _ => Unary := by
  induction steps with
  | zero => exact ⟨reads_exhausted, reads_exhausted⟩
  | succ steps ih =>
    obtain ⟨hexpression, hunary⟩ := ih
    have hchains := reads_chains hunary steps fun _ hm => Level.proper_of_mem_all hm
    rw [← ladder_eq_all] at hchains
    exact ⟨reads_assignment hchains hexpression, reads_operand hunary hexpression steps⟩

theorem reads_expression (steps : Nat) : Reads (expression steps) fun _ => Expression :=
  (reads_expression_unary steps).1

/-! ## Statements -/

theorem reads_clause (kind : Kind) (steps : Nat) :
    Reads (unlessNext kind (expression steps)) fun _ => Clause :=
  reads_unlessNext (reads_expression steps) (fun _ _ => .none) .some

theorem reads_variableDeclaration (steps : Nat) :
    Reads (variableDeclaration steps) fun _ => Variable := by
  refine reads_expect_bind fun name hname => reads_take?_bind (by simp) ?_ ?_
  · intro equals hequals
    refine (reads_expression steps).bind fun value => reads_expect_bind fun semicolon hs =>
      reads_pure fun _ n' n ts hvalue => ?_
    exact .initialized hname (by simpa using hequals) hvalue hs
  · exact reads_expect_bind fun semicolon hs => reads_pure fun _ n => .bare hname hs

theorem reads_expressionStatement (steps : Nat) :
    Reads (expressionStatement steps) fun _ n ts s n' => ∃ us semicolon e,
      ts = us ++ [semicolon] ∧ s = .expression e ∧ Expression n us e n' ∧
        semicolon.kind = .mark .semicolon :=
  (reads_expression steps).bind fun value => reads_expect_bind fun semicolon hs =>
    reads_pure fun _ _ _ us hvalue => ⟨us, semicolon, value, rfl, rfl, hvalue, hs⟩

/-- A statement, which does not stand before an `else` if it could still have one. -/
def ClosedBefore (t : Token) (n : Nat) (ts : List Token) (s : Stmt) (n' : Nat) : Prop :=
  ∃ d, Statement d n ts s n' ∧ (d = true → t.kind ≠ .keyword .elseWord)

theorem ClosedBefore.of_closed {t : Token} {n n' : Nat} {ts : List Token} {s : Stmt}
    (h : Statement false n ts s n') : ClosedBefore t n ts s n' :=
  ⟨false, h, by simp⟩

theorem reads_block {declaration : Rule (Option Stmt)}
    (h : Reads declaration fun _ n ts o n' => ∃ s, o = some s ∧ Declaration n ts s n')
    (steps : Nat) :
    Reads (block declaration steps) fun _ n ts body n' =>
      ∀ opening, opening.kind = .mark .leftBrace → Block n (opening :: ts) body n' :=
  (reads_manyUntil h (fun _ => .nil) .cons steps).bind fun _ =>
    reads_expect_bind fun _ hclose => reads_pure fun _ _ _ _ hbody _ hopening =>
      .braces hopening hbody hclose

theorem reads_function {declaration : Rule (Option Stmt)}
    (h : Reads declaration fun _ n ts o n' => ∃ s, o = some s ∧ Declaration n ts s n')
    (role : Role) (steps : Nat) : Reads (function role declaration steps) fun _ => Function := by
  have hparams : Reads (parenthesized .parameters (expect .parameterName) steps)
      fun _ n ts params n' => n' = n ∧ Parameters ts params := by
    refine reads_parenthesized (Q := fun n ts names n' => n' = n ∧ Names ts names)
      (reads_expect .parameterName) ?_ ?_ (fun _ => ⟨rfl, .none⟩)
      (fun ⟨hn, hq⟩ hlen => ⟨hn, .some hq hlen⟩) steps
    · rintro n ts t n' ⟨rfl, rfl, hk⟩
      exact ⟨rfl, .one hk⟩
    · rintro n ts t n₁ comma us vs n' ⟨rfl, rfl, hk⟩ hcomma ⟨rfl, hq⟩
      exact ⟨rfl, .more hk hcomma hq⟩
  refine reads_expect_bind fun name hname => reads_expect_bind fun opening hopening =>
    hparams.bind fun params => reads_expect_bind fun close hclose =>
    reads_expect_bind fun brace hbrace => (reads_block h steps).bind fun body => reads_pure ?_
  rintro _ n' n₁ us hblock n ts ⟨rfl, hparams⟩
  simpa using Function.named hname hopening hparams hclose (hblock brace hbrace)

theorem reads_superclass : Reads superclass fun _ => Superclass := by
  refine reads_take?_bind (by simp) ?_ (reads_pure fun _ _ => .none)
  intro less hless
  refine reads_expect_bind fun name hname => reads_freshId_bind fun id => reads_pure ?_
  rintro _ _ rfl
  exact .some (by simpa using hless) hname

theorem reads_classDeclaration {declaration : Rule (Option Stmt)}
    (h : Reads declaration fun _ n ts o n' => ∃ s, o = some s ∧ Declaration n ts s n')
    (steps : Nat) :
    Reads (classDeclaration declaration steps) fun _ n ts s n' =>
      ∀ word, word.kind = .keyword .classWord → Declaration n (word :: ts) s n' := by
  have hmethod : Reads (do return some (← function .method declaration steps) : Rule _)
      fun _ n ts o n' => ∃ m, o = some m ∧ Function n ts m n' :=
    (reads_function h .method steps).bind fun m =>
      reads_pure fun _ _ _ _ hm => ⟨m, rfl, by simpa using hm⟩
  refine reads_expect_bind fun name hname => reads_superclass.bind fun parent =>
    reads_expect_bind fun opening hopening =>
    (reads_manyUntil hmethod (fun _ => Methods.nil) .cons steps).bind fun methods =>
    reads_expect_bind fun close hclose => reads_pure ?_
  intro _ n' n₁ us hmethods n ts hparent word hword
  exact .classDecl hword hname hparent hopening hmethods hclose

theorem reads_forInitializer (steps : Nat) :
    Reads (forInitializer steps) fun _ => Initializer := by
  refine reads_peek_bind fun t => ?_
  split
  · next hk => exact .inr ⟨_, rfl, by simp [hk], reads_pure fun _ _ => .none hk⟩
  · next hk =>
    refine .inr ⟨_, rfl, by simp [hk], (reads_variableDeclaration steps).bind fun s =>
      reads_pure fun _ n' n ts hs => ?_⟩
    simpa using Initializer.declaration hk hs
  · refine .inl ((reads_expressionStatement steps).bind fun s => reads_pure ?_)
    rintro _ n' n _ ⟨us, semicolon, e, rfl, rfl, he, hs⟩
    simpa using Initializer.expression he hs

theorem reads_forStatement {statement : Rule Stmt} (h : Reads statement ClosedBefore)
    (steps : Nat) :
    Reads (forStatement statement steps) fun t n ts s n' =>
      ∀ word, word.kind = .keyword .forWord → ClosedBefore t n (word :: ts) s n' := by
  refine reads_expect_bind fun opening hopening => (reads_forInitializer steps).bind fun init =>
    (reads_clause _ steps).bind fun condition => reads_expect_bind fun semicolon hs =>
    (reads_clause _ steps).bind fun increment => reads_expect_bind fun close hclose =>
    h.bind fun body => reads_pure ?_
  rintro t n' n₃ ws ⟨d, hbody, helse⟩ n₂ vs hincrement n₁ us hcondition n ts hinit word hword
  have hloop := Statement.forLoop hword hopening hinit hcondition hs hincrement hclose hbody
    (desugars_forLoop _ _ _ _)
  exact ⟨d, by simpa using hloop, helse⟩

theorem reads_whileStatement {statement : Rule Stmt} (h : Reads statement ClosedBefore)
    (steps : Nat) :
    Reads (whileStatement statement steps) fun t n ts s n' =>
      ∀ word, word.kind = .keyword .whileWord → ClosedBefore t n (word :: ts) s n' := by
  refine reads_expect_bind fun opening hopening => (reads_expression steps).bind fun condition =>
    reads_expect_bind fun close hclose => h.bind fun body => reads_pure ?_
  rintro t n' n₁ us ⟨d, hbody, helse⟩ n ts hcondition word hword
  exact ⟨d, by simpa using Statement.whileDo hword hopening hcondition hclose hbody, helse⟩

/-- Before an `else` that was taken, the first branch has no `if` that could claim it. -/
theorem reads_ifStatement {statement : Rule Stmt} (h : Reads statement ClosedBefore)
    (steps : Nat) :
    Reads (ifStatement statement steps) fun t n ts s n' =>
      ∀ word, word.kind = .keyword .ifWord → ClosedBefore t n (word :: ts) s n' := by
  refine reads_expect_bind fun opening hopening => (reads_expression steps).bind fun condition =>
    reads_expect_bind fun close hclose => h.bind fun thenBranch =>
    reads_take?_or_else (by simp) ?_ ?_
  · intro other hother
    have hother : other.kind = .keyword .elseWord := by simpa using hother
    refine h.bind fun elseBranch => reads_pure ?_
    rintro t n' n₂ vs ⟨d, helse, hd⟩ n₁ us ⟨d', hthen, hd'⟩ n ts hcondition word hword
    cases d' with
    | true => exact absurd hother (hd' rfl)
    | false =>
      have hif := Statement.ifElse hword hopening hcondition hclose hthen hother helse
      exact ⟨d, by simpa using hif, hd⟩
  · refine reads_pure ?_
    rintro t n' hnext n₁ us ⟨d, hthen, -⟩ n ts hcondition word hword
    have hif := Statement.ifThen hword hopening hcondition hclose hthen
    exact ⟨true, by simpa using hif, fun _ => by simpa using hnext⟩

/-- The rules for statements and declarations, which call each other with fewer steps. -/
theorem reads_statement_declaration (steps : Nat) :
    Reads (statement steps) ClosedBefore ∧
      Reads (declaration steps) fun _ n ts o n' => ∃ s, o = some s ∧ Declaration n ts s n' := by
  induction steps with
  | zero => exact ⟨reads_exhausted, reads_exhausted⟩
  | succ steps ih =>
    obtain ⟨hstatement, hdeclaration⟩ := ih
    constructor
    · refine reads_peek_bind fun t => ?_
      split
      · next hk =>
        exact .inr ⟨_, rfl, by simp [hk],
          (reads_forStatement hstatement steps).mono fun h => h t hk⟩
      · next hk =>
        exact .inr ⟨_, rfl, by simp [hk], (reads_ifStatement hstatement steps).mono fun h => h t hk⟩
      · next hk =>
        refine .inr ⟨_, rfl, by simp [hk], (reads_expression steps).bind fun e =>
          reads_expect_bind fun semicolon hs => reads_pure fun _ n' n ts he => ?_⟩
        exact .of_closed (.print hk he hs)
      · next hk =>
        refine .inr ⟨_, rfl, by simp [hk], (reads_clause _ steps).bind fun value =>
          reads_expect_bind fun semicolon hs => reads_pure fun _ n' n ts hvalue => ?_⟩
        exact .of_closed (.ret hk hvalue hs)
      · next hk =>
        exact .inr ⟨_, rfl, by simp [hk],
          (reads_whileStatement hstatement steps).mono fun h => h t hk⟩
      · next hk =>
        refine .inr ⟨_, rfl, by simp [hk], (reads_block hdeclaration steps).bind fun body =>
          reads_pure fun _ n' n ts hblock => ?_⟩
        exact .of_closed (.block (by simpa using hblock t hk))
      · refine .inl ((reads_expressionStatement steps).mono ?_)
        rintro _ n ts s n' ⟨us, semicolon, e, rfl, rfl, he, hs⟩
        exact .of_closed (.expression he hs)
    · refine reads_recover (P := fun _ => Declaration) (reads_peek_bind fun t => ?_)
      -- By the token at which a declaration begins; without a word of its own it is a statement.
      split
      · next hk =>
        exact .inr ⟨_, rfl, by simp [hk],
          (reads_classDeclaration hdeclaration steps).mono fun h => h t hk⟩
      · next hk =>
        refine .inr ⟨_, rfl, by simp [hk], (reads_function hdeclaration .function steps).bind
          fun decl => reads_pure fun _ n' n ts hdecl => ?_⟩
        exact .funDecl hk (by simpa using hdecl)
      · next hk =>
        exact .inr ⟨_, rfl, by simp [hk], (reads_variableDeclaration steps).mono (.varDecl hk)⟩
      · refine .inl (hstatement.mono ?_)
        rintro _ n ts s n' ⟨_, hs, -⟩
        exact .statement hs

theorem reads_program (steps : Nat) : Reads (program steps) fun _ => Declarations :=
  reads_manyUntil (reads_statement_declaration steps).2 (fun _ => .nil) .cons steps

end Rule

end LoxLang
