import LoxLang.Proofs.Grammar.Completeness.Expressions

/-!
# More steps

How many steps a rule may take decides whether it gives up, and nothing else: what is read within
some steps is read in the same way within more.

1. `Rule.outlasts_expression`, `Rule.outlasts_declaration`: rules of the grammar.
-/

namespace LoxLang

namespace Rule

variable {α β : Type}

/-- The first rule comes to what the second one comes to, unless the steps of the second run out. -/
def Outlasts (longer r : Rule α) : Prop :=
  ∀ c, (r c).ComesTo (longer c)

namespace Outlasts

theorem refl (r : Rule α) : r.Outlasts r :=
  fun _ => .refl _

theorem ok {longer r : Rule α} (h : longer.Outlasts r) {c c' : Cursor} {v : α}
    (hrun : r c = .ok v c') : longer c = .ok v c' := by
  rcases h c with hc | hc
  · rw [hrun] at hc
    cases hc
  · rw [← hc, hrun]

theorem exhausted (longer : Rule α) : longer.Outlasts Rule.exhausted :=
  fun _ => .exhausted _

theorem bind {first first' : Rule α} {next next' : α → Rule β} (h : first'.Outlasts first)
    (hnext : ∀ v, (next' v).Outlasts (next v)) :
    Outlasts (first' >>= next') (first >>= next) := by
  intro c
  rcases h c with h | h
  · exact .inl (bind_exhausted h)
  cases hrun : first c with
  | ok v c₁ =>
    rw [bind_ok hrun, bind_ok (h ▸ hrun)]
    exact hnext v c₁
  | fail e c₁ => exact .of_eq ((bind_fail hrun).trans (bind_fail (h ▸ hrun)).symm)
  | exhausted => exact .inl (bind_exhausted hrun)

/-- A rule may go on in a longer way if it begins in the same way. -/
theorem after {first : Rule α} {next next' : α → Rule β}
    (hnext : ∀ v, (next' v).Outlasts (next v)) : Outlasts (first >>= next') (first >>= next) :=
  (refl first).bind hnext

/-- A phrase of which something is made. -/
theorem map {r r' : Rule α} (h : r'.Outlasts r) (make : α → Rule β) :
    Outlasts (r' >>= make) (r >>= make) :=
  h.bind fun _ => refl _

theorem unlessNext {phrase phrase' : Rule α} (h : phrase'.Outlasts phrase) (kind : Kind) :
    (Rule.unlessNext kind phrase').Outlasts (Rule.unlessNext kind phrase) := by
  refine after fun next => ?_
  split
  · exact refl _
  · exact h.map _

theorem recover {phrase phrase' : Rule α} (h : phrase'.Outlasts phrase) :
    (Rule.recover phrase').Outlasts (Rule.recover phrase) := by
  intro c
  unfold Rule.recover
  rcases h c with h | h
  · exact .inl (by rw [h])
  · exact .of_eq (by rw [h])

section

variable {steps steps' : Nat} (hle : steps ≤ steps')
include hle

theorem manyUntil {stops : Token → Bool} {phrase phrase' : Rule (Option α)}
    (h : phrase'.Outlasts phrase) :
    (Rule.manyUntil stops phrase' steps').Outlasts (Rule.manyUntil stops phrase steps) := by
  induction steps generalizing steps' with
  | zero => exact exhausted _
  | succ steps ih =>
    obtain ⟨steps', rfl⟩ := Nat.exists_eq_add_one_of_ne_zero (Nat.ne_zero_of_lt hle)
    refine after fun next => ?_
    split
    · exact refl _
    · exact h.bind fun first => (ih (Nat.le_of_succ_le_succ hle)).map _

theorem commaSeparated {listed : Listed} {phrase phrase' : Rule α} (h : phrase'.Outlasts phrase)
    (count : Nat) :
    (Rule.commaSeparated listed phrase' steps' count).Outlasts
      (Rule.commaSeparated listed phrase steps count) := by
  induction steps generalizing steps' count with
  | zero => exact exhausted _
  | succ steps ih =>
    obtain ⟨steps', rfl⟩ := Nat.exists_eq_add_one_of_ne_zero (Nat.ne_zero_of_lt hle)
    refine after fun _ => h.bind fun first => after fun comma => ?_
    cases comma with
    | none => exact refl _
    | some _ => exact (ih (Nat.le_of_succ_le_succ hle) (count + 1)).map _

theorem parenthesized {listed : Listed} {phrase phrase' : Rule α} (h : phrase'.Outlasts phrase) :
    (Rule.parenthesized listed phrase' steps').Outlasts
      (Rule.parenthesized listed phrase steps) :=
  ((commaSeparated hle h 0).unlessNext _).map _

/-! ## Expressions -/

theorem chainFrom (level : Level) {operand operand' : Rule Expr} (h : operand'.Outlasts operand)
    (left : Expr) :
    (Rule.chainFrom level operand' steps' left).Outlasts
      (Rule.chainFrom level operand steps left) := by
  induction steps generalizing steps' left with
  | zero => exact exhausted _
  | succ steps ih =>
    obtain ⟨steps', rfl⟩ := Nat.exists_eq_add_one_of_ne_zero (Nat.ne_zero_of_lt hle)
    refine after fun operator => ?_
    cases operator with
    | none => exact refl _
    | some _ => exact h.bind fun right => ih (Nat.le_of_succ_le_succ hle) _

theorem chains (levels : List Level) {operand operand' : Rule Expr}
    (h : operand'.Outlasts operand) :
    (Rule.chains levels operand' steps').Outlasts (Rule.chains levels operand steps) := by
  induction levels with
  | nil => exact h
  | cons level tighter ih => exact ih.bind fun left => chainFrom hle level ih left

theorem accesses {expression expression' : Rule Expr} (h : expression'.Outlasts expression)
    (object : Expr) :
    (Rule.accesses expression' steps' object).Outlasts
      (Rule.accesses expression steps object) := by
  induction steps generalizing steps' object with
  | zero => exact exhausted _
  | succ steps ih =>
    obtain ⟨steps', rfl⟩ := Nat.exists_eq_add_one_of_ne_zero (Nat.ne_zero_of_lt hle)
    have hless := Nat.le_of_succ_le_succ hle
    refine after fun opening => ?_
    cases opening with
    | some _ =>
      exact (parenthesized hless h).bind fun _ => after fun _ => ih hless _
    | none =>
      refine after fun dot => ?_
      cases dot with
      | some _ => exact after fun _ => ih hless _
      | none => exact refl _

end

theorem primary {expression expression' : Rule Expr} (h : expression'.Outlasts expression) :
    (Rule.primary expression').Outlasts (Rule.primary expression) := by
  refine after fun t => ?_
  split
  case h_9 => exact after fun _ => h.map _
  all_goals exact refl _

end Outlasts

theorem outlasts_expression_unary {steps steps' : Nat} (hle : steps ≤ steps') :
    (expression steps').Outlasts (expression steps) ∧ (unary steps').Outlasts (unary steps) := by
  induction steps generalizing steps' with
  | zero => exact ⟨.exhausted _, .exhausted _⟩
  | succ steps ih =>
    obtain ⟨steps', rfl⟩ := Nat.exists_eq_add_one_of_ne_zero (Nat.ne_zero_of_lt hle)
    have hless := Nat.le_of_succ_le_succ hle
    obtain ⟨hexpression, hunary⟩ := ih hless
    constructor
    · refine (Outlasts.chains hless Level.all hunary).bind fun left => .after fun equals => ?_
      cases equals with
      | none => exact .refl _
      | some _ => exact hexpression.map _
    · refine .after fun operator => ?_
      cases operator with
      | some _ => exact hunary.map _
      | none =>
        exact (Outlasts.primary hexpression).bind fun object =>
          .accesses hless hexpression object

theorem outlasts_expression {steps steps' : Nat} (hle : steps ≤ steps') :
    (expression steps').Outlasts (expression steps) :=
  (outlasts_expression_unary hle).1

section

variable {steps steps' : Nat} (hle : steps ≤ steps')
include hle

/-! ## Statements -/

theorem outlasts_variableDeclaration :
    (variableDeclaration steps').Outlasts (variableDeclaration steps) := by
  refine .after fun name => .after fun equals => ?_
  cases equals with
  | none => exact .refl _
  | some _ => exact (outlasts_expression hle).map _

theorem outlasts_expressionStatement :
    (expressionStatement steps').Outlasts (expressionStatement steps) :=
  (outlasts_expression hle).map _

theorem outlasts_printStatement : (printStatement steps').Outlasts (printStatement steps) :=
  (outlasts_expression hle).map _

theorem outlasts_returnStatement (keyword : Token) :
    (returnStatement steps' keyword).Outlasts (returnStatement steps keyword) :=
  ((outlasts_expression hle).unlessNext _).map _

theorem outlasts_forInitializer : (forInitializer steps').Outlasts (forInitializer steps) := by
  refine .after fun next => ?_
  split
  · exact .refl _
  · exact .after fun _ => (outlasts_variableDeclaration hle).map _
  · exact (outlasts_expressionStatement hle).map _

section

variable {statement statement' : Rule Stmt} (h : statement'.Outlasts statement)
include h

theorem outlasts_forStatement :
    (forStatement statement' steps').Outlasts (forStatement statement steps) :=
  .after fun _ => (outlasts_forInitializer hle).bind fun _ =>
    ((outlasts_expression hle).unlessNext _).bind fun _ => .after fun _ =>
    ((outlasts_expression hle).unlessNext _).bind fun _ => .after fun _ => h.map _

theorem outlasts_ifStatement :
    (ifStatement statement' steps').Outlasts (ifStatement statement steps) := by
  refine .after fun _ => (outlasts_expression hle).bind fun _ => .after fun _ =>
    h.bind fun _ => .after fun other => ?_
  cases other with
  | none => exact .refl _
  | some _ => exact h.map _

theorem outlasts_whileStatement :
    (whileStatement statement' steps').Outlasts (whileStatement statement steps) :=
  .after fun _ => (outlasts_expression hle).bind fun _ => .after fun _ => h.map _

end

section

variable {declaration declaration' : Rule (Option Stmt)} (h : declaration'.Outlasts declaration)
include h

theorem outlasts_block : (block declaration' steps').Outlasts (block declaration steps) :=
  (Outlasts.manyUntil hle h).map _

theorem outlasts_function (role : Role) :
    (function role declaration' steps').Outlasts (function role declaration steps) :=
  .after fun _ => .after fun _ => (Outlasts.parenthesized hle (.refl _)).bind fun _ =>
    .after fun _ => .after fun _ => (outlasts_block hle h).map _

theorem outlasts_classDeclaration :
    (classDeclaration declaration' steps').Outlasts (classDeclaration declaration steps) :=
  .after fun _ => .after fun _ => .after fun _ =>
    (Outlasts.manyUntil hle ((outlasts_function hle h .method).map _)).map _

end

end

theorem outlasts_statement_declaration {steps steps' : Nat} (hle : steps ≤ steps') :
    (statement steps').Outlasts (statement steps) ∧
      (declaration steps').Outlasts (declaration steps) := by
  induction steps generalizing steps' with
  | zero => exact ⟨.exhausted _, .exhausted _⟩
  | succ steps ih =>
    obtain ⟨steps', rfl⟩ := Nat.exists_eq_add_one_of_ne_zero (Nat.ne_zero_of_lt hle)
    have hless := Nat.le_of_succ_le_succ hle
    obtain ⟨hstatement, hdeclaration⟩ := ih hless
    constructor
    · refine .after fun next => ?_
      split
      · exact .after fun _ => outlasts_forStatement hless hstatement
      · exact .after fun _ => outlasts_ifStatement hless hstatement
      · exact .after fun _ => outlasts_printStatement hless
      · exact .after fun _ => outlasts_returnStatement hless next
      · exact .after fun _ => outlasts_whileStatement hless hstatement
      · exact .after fun _ => (outlasts_block hless hdeclaration).map _
      · exact outlasts_expressionStatement hless
    · refine .recover (.after fun next => ?_)
      split
      · exact .after fun _ => outlasts_classDeclaration hless hdeclaration
      · exact .after fun _ => (outlasts_function hless hdeclaration .function).map _
      · exact .after fun _ => outlasts_variableDeclaration hless
      · exact hstatement

theorem outlasts_declaration {steps steps' : Nat} (hle : steps ≤ steps') :
    (declaration steps').Outlasts (declaration steps) :=
  (outlasts_statement_declaration hle).2

theorem outlasts_program {steps steps' : Nat} (hle : steps ≤ steps') :
    (program steps').Outlasts (program steps) :=
  .manyUntil hle (outlasts_declaration hle)

end Rule

end LoxLang
