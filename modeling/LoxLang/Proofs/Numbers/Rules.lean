import Mathlib.Data.List.Perm.Subperm
import LoxLang.Proofs.Grammar.Reading
import LoxLang.Proofs.Grammar.Trees

/-!
# Numbers of mentions

Reading gives every mention a number of its own, whether or not there are faults in the text. What
is read before a fault is dropped with its numbers, and the number of a name that turns out to be
assigned to is not used again.

1. `Rule.numbers_expression`, `Rule.numbers_statement_declaration`: rules of the grammar.
2. `Parsed.numbered`: whole texts.
-/

namespace LoxLang

namespace Rule

variable {α β : Type} {os : List Occurrence} {f : α → List Occurrence} {g : β → List Occurrence}

/-- The mentions in what was read have numbers from `n` on. Numbers are only used up, even where
nothing was read. -/
def IsNumbered (n : Nat) (f : α → List Occurrence) : Reply α → Prop
  | .ok value c => Numbered n (f value) c.nextId
  | .fail _ c => n ≤ c.nextId
  | .exhausted => True

/-- If the mentions read already have numbers from `n` on then so have those in what the rule comes
to. -/
def Numbers (os : List Occurrence) (r : Rule α) (f : α → List Occurrence) : Prop :=
  ∀ n c, Numbered n os c.nextId → IsNumbered n f (r c)

theorem numbers_exhausted : Numbers os exhausted f :=
  fun _ _ _ => trivial

theorem numbers_fail (fault : GrammarFault) : Numbers os (fail fault) f :=
  fun _ _ hos => hos.le

theorem numbers_pure {value : α} (h : f value = os) : Numbers os (Pure.pure value) f := by
  intro n c hos
  rw [← h] at hos
  exact hos

/-- Mentions may be dropped, or come in another order. -/
theorem numbers_pure_of_subperm {value : α} (h : (f value).Subperm os) :
    Numbers os (Pure.pure value) f := by
  obtain ⟨os', hperm, hsublist⟩ := h
  exact fun _ _ hos => (hos.sublist hsublist).perm hperm

theorem Numbers.bind {r : Rule α} {next : α → Rule β} (h : Numbers os r f)
    (hnext : ∀ v, Numbers (f v) (next v) g) : Numbers os (r >>= next) g := by
  intro n c hos
  have hr := h n c hos
  cases hrun : r c with
  | ok v c₁ =>
    rw [hrun] at hr
    rw [bind_ok hrun]
    exact hnext v n c₁ hr
  | fail e c₁ =>
    rw [hrun] at hr
    rw [bind_fail hrun]
    exact hr
  | exhausted =>
    rw [bind_exhausted hrun]
    trivial

/-- What is read next is numbered behind what was read before. -/
theorem Numbers.behind {r : Rule α} (h : Numbers [] r f) (os : List Occurrence) :
    Numbers os r fun v => os ++ f v := by
  intro n c hos
  have hr := h c.nextId c (.nil (Nat.le_refl _))
  cases hrun : r c with
  | ok v c' =>
    rw [hrun] at hr
    exact hos.append hr
  | fail e c' =>
    rw [hrun] at hr
    exact Nat.le_trans hos.le hr
  | exhausted => trivial

/-- A phrase after others, of which something is made with all their mentions. -/
theorem Numbers.then {r : Rule α} {next : α → Rule β} (h : Numbers [] r f)
    (hnext : ∀ v, Numbers (os ++ f v) (next v) g) : Numbers os (r >>= next) g :=
  (h.behind os).bind hnext

theorem numbers_freshId_bind {next : Nat → Rule β} (token : Token)
    (h : ∀ id, Numbers (os ++ [⟨id, token⟩]) (next id) g) : Numbers os (freshId >>= next) g := by
  intro n c hos
  rw [bind_ok (show freshId c = .ok c.nextId _ from rfl)]
  exact h c.nextId n _ (hos.append (.single (Nat.le_refl _) (Nat.lt_succ_self _)))

/-! ## Rules without mentions -/

/-- Numbers go on from `n`. -/
def GoesOn (n : Nat) : Reply α → Prop
  | .ok _ c => c.nextId = n
  | .fail _ c => c.nextId = n
  | .exhausted => True

/-- Whether it fails or not, the rule uses up no numbers. -/
def Spares (r : Rule α) : Prop :=
  ∀ c, GoesOn c.nextId (r c)

theorem Spares.numbers {r : Rule α} (h : Spares r) (os : List Occurrence) :
    Numbers os r fun _ => os := by
  intro n c hos
  have hr := h c
  generalize r c = reply at hr
  cases reply with
  | ok v c' =>
    have hnext : c'.nextId = c.nextId := hr
    rw [← hnext] at hos
    exact hos
  | fail e c' =>
    have hnext : c'.nextId = c.nextId := hr
    exact Nat.le_trans hos.le (Nat.le_of_eq hnext.symm)
  | exhausted => trivial

theorem Spares.bind {r : Rule α} {next : α → Rule β} (h : Spares r)
    (hnext : ∀ v, Numbers os (next v) g) : Numbers os (r >>= next) g :=
  (h.numbers os).bind hnext

theorem spares_peek : Spares peek :=
  fun _ => rfl

theorem spares_advance : Spares advance :=
  Cursor.advance_nextId

theorem spares_take? (kinds : List Kind) : Spares (take? kinds) := by
  intro c
  unfold take?
  by_cases h : c.peek.kind ∈ kinds
  · rw [if_pos h]
    exact Cursor.advance_nextId c
  · rw [if_neg h]
    rfl

theorem spares_expect (awaited : Awaited) : Spares (expect awaited) := by
  intro c
  unfold expect
  by_cases h : c.peek.kind = awaited.kind
  · rw [if_pos h]
    exact Cursor.advance_nextId c
  · rw [if_neg h]
    rfl

theorem spares_record (site : Site) (fault : GrammarFault) : Spares (record site fault) :=
  fun _ => rfl

theorem spares_limit (listed : Listed) (count : Nat) : Spares (limit listed count) := by
  intro c
  unfold limit
  rw [bind_ok (show peek c = .ok c.peek c from rfl)]
  by_cases h : maxArity ≤ count
  · rw [if_pos h]
    rfl
  · rw [if_neg h]
    rfl

/-! ## Repetition -/

theorem numbers_unlessNext (kind : Kind) {phrase : Rule α} (h : Numbers [] phrase f) :
    Numbers [] (unlessNext kind phrase) fun o => (o.map f).getD [] := by
  refine spares_peek.bind fun t => ?_
  split
  · exact numbers_pure rfl
  · exact h.bind fun v => numbers_pure rfl

theorem numbers_recover {phrase : Rule α} (h : Numbers [] phrase f) :
    Numbers [] (recover phrase) fun o => (o.map f).getD [] := by
  intro n c hos
  have hr := h n c hos
  unfold recover
  cases hrun : phrase c with
  | ok v c' =>
    rw [hrun] at hr
    exact hr
  | fail e c' =>
    rw [hrun] at hr
    have hnext : (resynchronize (c'.record e)).nextId = c'.nextId := by
      unfold resynchronize
      split <;> rfl
    exact .nil (hnext ▸ hr)
  | exhausted => trivial

theorem numbers_manyUntil (stops : Token → Bool) {phrase : Rule (Option α)}
    (h : Numbers [] phrase fun o => (o.map f).getD []) (steps : Nat) :
    Numbers [] (manyUntil stops phrase steps) (List.flatMap f) := by
  induction steps with
  | zero => exact numbers_exhausted
  | succ steps ih =>
    refine spares_peek.bind fun t => ?_
    split
    · exact numbers_pure rfl
    · refine h.then fun first => ih.then fun others => numbers_pure ?_
      cases first <;> simp

theorem numbers_commaSeparated (listed : Listed) {phrase : Rule α} (h : Numbers [] phrase f)
    (steps count : Nat) :
    Numbers [] (commaSeparated listed phrase steps count) (List.flatMap f) := by
  induction steps generalizing count with
  | zero => exact numbers_exhausted
  | succ steps ih =>
    refine (spares_limit listed count).bind fun _ => h.then fun first =>
      (spares_take? _).bind fun comma => ?_
    cases comma with
    | none => exact numbers_pure (by simp)
    | some _ => exact (ih (count + 1)).then fun others => numbers_pure (by simp)

theorem numbers_parenthesized (listed : Listed) {phrase : Rule α} (h : Numbers [] phrase f)
    (steps : Nat) : Numbers [] (parenthesized listed phrase steps) (List.flatMap f) := by
  refine (numbers_unlessNext _ (numbers_commaSeparated listed h steps 0)).bind fun found =>
    numbers_pure ?_
  cases found <;> rfl

/-! ## Expressions -/

theorem numbers_chainFrom {level : Level} (hl : level.Proper) {operand : Rule Expr}
    (h : Numbers [] operand Expr.mentions) (steps : Nat) (left : Expr) :
    Numbers left.mentions (chainFrom level operand steps left) Expr.mentions := by
  induction steps generalizing left with
  | zero => exact numbers_exhausted
  | succ steps ih =>
    refine (spares_take? _).bind fun operator => ?_
    cases operator with
    | none => exact numbers_pure rfl
    | some operator =>
      refine h.then fun right => ?_
      have hbuild : (level.build left operator right).mentions =
          left.mentions ++ right.mentions := by
        rcases hl.2 left operator right with hb | hb <;> rw [hb] <;> rfl
      rw [← hbuild]
      exact ih _

theorem numbers_chains {levels : List Level} (hl : ∀ level ∈ levels, level.Proper)
    {operand : Rule Expr} (h : Numbers [] operand Expr.mentions) (steps : Nat) :
    Numbers [] (chains levels operand steps) Expr.mentions := by
  induction levels with
  | nil => exact h
  | cons level tighter ih =>
    obtain ⟨hlevel, htighter⟩ := List.forall_mem_cons.1 hl
    exact (ih htighter).bind fun left => numbers_chainFrom hlevel (ih htighter) steps left

/-- The number of a name that is assigned to is dropped, and so is a value that is not assigned. -/
theorem numbers_assignTo (target : Expr) (equals : Token) (value : Expr) :
    Numbers (target.mentions ++ value.mentions) (assignTo target equals value)
      Expr.mentions := by
  have hother : ∀ other : Expr, other.mentions.Subperm (other.mentions ++ value.mentions) :=
    fun other => (List.sublist_append_left _ _).subperm
  cases target with
  | var name =>
    refine numbers_freshId_bind name.token fun id => numbers_pure_of_subperm ?_
    exact (List.sublist_cons_self _ _).subperm
  | get object name => exact numbers_pure rfl
  | _ => exact (spares_record _ _).bind fun _ => numbers_pure_of_subperm (hother _)

theorem numbers_primary {expression : Rule Expr} (h : Numbers [] expression Expr.mentions) :
    Numbers [] (primary expression) Expr.mentions := by
  refine spares_peek.bind fun t => ?_
  split
  · exact spares_advance.bind fun _ => numbers_pure rfl
  · exact spares_advance.bind fun _ => numbers_pure rfl
  · exact spares_advance.bind fun _ => numbers_pure rfl
  · exact spares_advance.bind fun _ => numbers_pure rfl
  · exact spares_advance.bind fun _ => numbers_pure rfl
  · exact spares_advance.bind fun _ => (spares_expect _).bind fun _ =>
      (spares_expect _).bind fun _ => numbers_freshId_bind t fun _ => numbers_pure rfl
  · exact spares_advance.bind fun _ => numbers_freshId_bind t fun _ => numbers_pure rfl
  · exact spares_advance.bind fun _ => numbers_freshId_bind t fun _ => numbers_pure rfl
  · exact spares_advance.bind fun _ => h.bind fun _ => (spares_expect _).bind fun _ =>
      numbers_pure rfl
  · exact numbers_fail _

theorem numbers_accesses {expression : Rule Expr} (h : Numbers [] expression Expr.mentions)
    (steps : Nat) (object : Expr) :
    Numbers object.mentions (accesses expression steps object) Expr.mentions := by
  induction steps generalizing object with
  | zero => exact numbers_exhausted
  | succ steps ih =>
    refine (spares_take? _).bind fun opening => ?_
    cases opening with
    | some _ =>
      refine (numbers_parenthesized _ h steps).then fun arguments =>
        (spares_expect _).bind fun close => ?_
      rw [← Expr.allMentions_eq_flatMap]
      exact ih (.call object close arguments)
    | none =>
      refine (spares_take? _).bind fun dot => ?_
      cases dot with
      | some _ => exact (spares_expect _).bind fun name => ih (.get object name)
      | none => exact numbers_pure rfl

theorem numbers_expression_unary (steps : Nat) :
    Numbers [] (expression steps) Expr.mentions ∧ Numbers [] (unary steps) Expr.mentions := by
  induction steps with
  | zero => exact ⟨numbers_exhausted, numbers_exhausted⟩
  | succ steps ih =>
    constructor
    · refine (numbers_chains (fun _ => Level.proper_of_mem_all) ih.2 steps).bind fun left =>
        (spares_take? _).bind fun equals => ?_
      cases equals with
      | none => exact numbers_pure rfl
      | some equals => exact ih.1.then fun value => numbers_assignTo left equals value
    · refine (spares_take? _).bind fun operator => ?_
      cases operator with
      | some operator => exact ih.2.bind fun _ => numbers_pure rfl
      | none =>
        exact (numbers_primary ih.1).bind fun object => numbers_accesses ih.1 steps object

theorem numbers_expression (steps : Nat) : Numbers [] (expression steps) Expr.mentions :=
  (numbers_expression_unary steps).1

/-! ## Statements -/

/-- The mentions in what need not be there. -/
abbrev inOption (f : α → List Occurrence) (o : Option α) : List Occurrence :=
  (o.map f).getD []

theorem numbers_clause (kind : Kind) (steps : Nat) :
    Numbers [] (unlessNext kind (expression steps)) (inOption Expr.mentions) :=
  numbers_unlessNext kind (numbers_expression steps)

theorem numbers_variableDeclaration (steps : Nat) :
    Numbers [] (variableDeclaration steps) Stmt.mentions := by
  refine (spares_expect _).bind fun name => (spares_take? _).bind fun equals => ?_
  cases equals with
  | none => exact (spares_expect _).bind fun _ => numbers_pure rfl
  | some _ =>
    exact (numbers_expression steps).bind fun _ => (spares_expect _).bind fun _ => numbers_pure rfl

theorem numbers_expressionStatement (steps : Nat) :
    Numbers [] (expressionStatement steps) Stmt.mentions :=
  (numbers_expression steps).bind fun _ => (spares_expect _).bind fun _ => numbers_pure rfl

theorem numbers_printStatement (steps : Nat) : Numbers [] (printStatement steps) Stmt.mentions :=
  (numbers_expression steps).bind fun _ => (spares_expect _).bind fun _ => numbers_pure rfl

theorem numbers_returnStatement (steps : Nat) (keyword : Token) :
    Numbers [] (returnStatement steps keyword) Stmt.mentions := by
  refine (numbers_clause _ steps).bind fun value => (spares_expect _).bind fun _ =>
    numbers_pure ?_
  cases value <;> rfl

variable {declaration : Rule (Option Stmt)}

theorem numbers_block (h : Numbers [] declaration (inOption Stmt.mentions)) (steps : Nat) :
    Numbers [] (block declaration steps) Stmt.allMentions := by
  refine (numbers_manyUntil _ h steps).bind fun body => (spares_expect _).bind fun _ =>
    numbers_pure ?_
  rw [Stmt.allMentions_eq_flatMap]

/-- Parameters have no numbers. -/
theorem numbers_function (role : Role) (h : Numbers [] declaration (inOption Stmt.mentions))
    (steps : Nat) : Numbers [] (function role declaration steps) FunctionDecl.mentions := by
  have hparams : Numbers [] (parenthesized .parameters (expect .parameterName) steps) _ :=
    numbers_parenthesized _ ((spares_expect _).numbers []) steps
  refine (spares_expect _).bind fun name => (spares_expect _).bind fun _ =>
    hparams.bind fun params => ?_
  rw [List.flatMap_eq_nil_iff.2 fun _ _ => rfl]
  exact (spares_expect _).bind fun _ => (spares_expect _).bind fun _ =>
    (numbers_block h steps).bind fun body => numbers_pure rfl

theorem numbers_superclass : Numbers [] superclass Option.toList := by
  refine (spares_take? _).bind fun less => ?_
  cases less with
  | none => exact numbers_pure rfl
  | some _ =>
    exact (spares_expect _).bind fun name => numbers_freshId_bind name fun _ => numbers_pure rfl

theorem numbers_classDeclaration (h : Numbers [] declaration (inOption Stmt.mentions))
    (steps : Nat) : Numbers [] (classDeclaration declaration steps) Stmt.mentions := by
  have hmethod : Numbers [] (function .method declaration steps >>= fun m => Pure.pure (some m))
      (inOption FunctionDecl.mentions) :=
    (numbers_function .method h steps).bind fun _ => numbers_pure rfl
  refine (spares_expect _).bind fun name => numbers_superclass.bind fun parent =>
    (spares_expect _).bind fun _ => (numbers_manyUntil _ hmethod steps).then fun methods =>
    (spares_expect _).bind fun _ => numbers_pure ?_
  rw [Stmt.mentions, FunctionDecl.allMentions_eq_flatMap]

theorem numbers_forInitializer (steps : Nat) :
    Numbers [] (forInitializer steps) (inOption Stmt.mentions) := by
  refine spares_peek.bind fun t => ?_
  split
  · exact spares_advance.bind fun _ => numbers_pure rfl
  · exact spares_advance.bind fun _ => (numbers_variableDeclaration steps).bind fun _ =>
      numbers_pure rfl
  · exact (numbers_expressionStatement steps).bind fun _ => numbers_pure rfl

variable {statement : Rule Stmt}

/-- The increment is read before the body, and stands behind it. -/
theorem numbers_forStatement (h : Numbers [] statement Stmt.mentions) (steps : Nat) :
    Numbers [] (forStatement statement steps) Stmt.mentions := by
  refine (spares_expect _).bind fun _ => (numbers_forInitializer steps).bind fun initializer =>
    (numbers_clause _ steps).then fun condition => (spares_expect _).bind fun _ =>
    (numbers_clause _ steps).then fun increment => (spares_expect _).bind fun _ =>
    h.then fun body => numbers_pure_of_subperm (List.Perm.subperm ?_)
  rw [Grammar.mentions_forLoop, List.append_assoc, List.append_assoc]
  exact (List.perm_append_comm.append_left _).append_left _

theorem numbers_ifStatement (h : Numbers [] statement Stmt.mentions) (steps : Nat) :
    Numbers [] (ifStatement statement steps) Stmt.mentions := by
  refine (spares_expect _).bind fun _ => (numbers_expression steps).bind fun _ =>
    (spares_expect _).bind fun _ => h.then fun _ => (spares_take? _).bind fun other => ?_
  cases other with
  | none => exact numbers_pure rfl
  | some _ => exact h.then fun _ => numbers_pure (by simp [Stmt.mentions])

theorem numbers_whileStatement (h : Numbers [] statement Stmt.mentions) (steps : Nat) :
    Numbers [] (whileStatement statement steps) Stmt.mentions :=
  (spares_expect _).bind fun _ => (numbers_expression steps).bind fun _ =>
    (spares_expect _).bind fun _ => h.then fun _ => numbers_pure rfl

theorem numbers_statement_declaration (steps : Nat) :
    Numbers [] (Rule.statement steps) Stmt.mentions ∧
      Numbers [] (Rule.declaration steps) (inOption Stmt.mentions) := by
  induction steps with
  | zero => exact ⟨numbers_exhausted, numbers_exhausted⟩
  | succ steps ih =>
    constructor
    · refine spares_peek.bind fun t => ?_
      split
      · exact spares_advance.bind fun _ => numbers_forStatement ih.1 steps
      · exact spares_advance.bind fun _ => numbers_ifStatement ih.1 steps
      · exact spares_advance.bind fun _ => numbers_printStatement steps
      · exact spares_advance.bind fun _ => numbers_returnStatement steps t
      · exact spares_advance.bind fun _ => numbers_whileStatement ih.1 steps
      · exact spares_advance.bind fun _ => (numbers_block ih.2 steps).bind fun _ =>
          numbers_pure rfl
      · exact numbers_expressionStatement steps
    · refine numbers_recover (spares_peek.bind fun t => ?_)
      split
      · exact spares_advance.bind fun _ => numbers_classDeclaration ih.2 steps
      · exact spares_advance.bind fun _ => (numbers_function .function ih.2 steps).bind fun _ =>
          numbers_pure rfl
      · exact spares_advance.bind fun _ => numbers_variableDeclaration steps
      · exact ih.1

theorem numbers_program (steps : Nat) : Numbers [] (program steps) Stmt.allMentions := by
  rw [show Stmt.allMentions = List.flatMap Stmt.mentions from
    funext Stmt.allMentions_eq_flatMap]
  exact numbers_manyUntil _ (numbers_statement_declaration steps).2 steps

end Rule

/-- The mentions in a text have numbers from the first one on, each another, whether or not there
are faults. -/
theorem Parsed.numbered (tokens : List Token) (first : Nat) :
    Numbered first (Stmt.allMentions (ofTokens tokens first).statements)
      (ofTokens tokens first).nextId := by
  have hprogram := Rule.numbers_program (steps tokens.length) first ⟨tokens, first, []⟩
    (.nil (Nat.le_refl _))
  unfold ofTokens
  generalize Rule.program (steps tokens.length) ⟨tokens, first, []⟩ = reply at hprogram
  cases reply with
  | ok statements c => exact hprogram
  | fail e c => exact .nil hprogram
  | exhausted => exact .nil (Nat.le_refl _)

end LoxLang
