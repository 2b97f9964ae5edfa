import LoxLang.Proofs.Grammar.Reading
import LoxLang.Proofs.Splitting.Moved

/-!
# Rules on moved tokens

A text that was moved is read as the text itself, moved, whether or not there are faults in it: the
trees are the same, the faults are the same, and as many numbers are used up.

1. `Rule.moves_expression`, `Rule.moves_statement_declaration`: rules of the grammar.
2. `Parsed.ofTokens_move`: whole texts.
-/

namespace LoxLang

section

variable (d : Move)

def Site.move (site : Site) : Site :=
  { site with line := d.line site.line }

def GrammarError.move (e : GrammarError) : GrammarError :=
  { e with site := e.site.move d }

def Cursor.move (c : Cursor) : Cursor :=
  ⟨c.rest.map (Token.move d), c.nextId + d.ids, c.errors.map (GrammarError.move d)⟩

def Reply.move {α β : Type} (f : α → β) : Reply α → Reply β
  | .ok value c => .ok (f value) (c.move d)
  | .fail e c => .fail (e.move d) (c.move d)
  | .exhausted => .exhausted

end

variable {d : Move}

theorem Site.ofToken_move (t : Token) : ofToken (t.move d) = (ofToken t).move d := rfl

theorem Expr.moveAll_eq_map (es : List Expr) : Expr.moveAll d es = es.map (Expr.move d) := by
  induction es with
  | nil => rfl
  | cons e rest ih => rw [Expr.moveAll, ih, List.map_cons]

theorem Stmt.moveAll_eq_map (body : List Stmt) : Stmt.moveAll d body = body.map (Stmt.move d) := by
  induction body with
  | nil => rfl
  | cons s rest ih => rw [Stmt.moveAll, ih, List.map_cons]

theorem FunctionDecl.moveAll_eq_map (methods : List FunctionDecl) :
    FunctionDecl.moveAll d methods = methods.map (FunctionDecl.move d) := by
  induction methods with
  | nil => rfl
  | cons m rest ih => rw [FunctionDecl.moveAll, ih, List.map_cons]

namespace Rule

/-- From a moved cursor `r'` comes to where `r` comes to from the cursor itself, moved. -/
def Moves (d : Move) {α β : Type} (f : α → β) (r : Rule α) (r' : Rule β) : Prop :=
  ∀ c : Cursor, r' (c.move d) = (r c).move d f

variable {α β γ δ : Type} {f : α → β} {g : γ → δ}

theorem moves_pure (value : α) : Moves d f (Pure.pure value) (Pure.pure (f value)) :=
  fun _ => rfl

theorem moves_exhausted : Moves d f exhausted exhausted :=
  fun _ => rfl

theorem Moves.bind {r : Rule α} {r' : Rule β} {next : α → Rule γ} {next' : β → Rule δ}
    (h : Moves d f r r') (hnext : ∀ v, Moves d g (next v) (next' (f v))) :
    Moves d g (r >>= next) (r' >>= next') := by
  intro c
  have hr := h c
  cases hv : r c with
  | ok v c₁ =>
    rw [hv] at hr
    rw [bind_ok hr, bind_ok hv]
    exact hnext v c₁
  | fail e c₁ =>
    rw [hv] at hr
    rw [bind_fail hr, bind_fail hv]
    rfl
  | exhausted =>
    rw [hv] at hr
    rw [bind_exhausted hr, bind_exhausted hv]
    rfl

/-- A phrase of which something is made. -/
theorem Moves.map {r : Rule α} {r' : Rule β} (h : Moves d f r r') {make : α → γ} {make' : β → δ}
    (hmake : ∀ v, make' (f v) = g (make v)) :
    Moves d g (r >>= fun v => Pure.pure (make v)) (r' >>= fun v => Pure.pure (make' v)) :=
  h.bind fun v => by
    rw [hmake]
    exact moves_pure _

theorem moves_freshId : Moves d (· + d.ids) freshId freshId := by
  intro c
  simp only [freshId, Reply.move, Cursor.move, Nat.add_right_comm]

theorem moves_record (site : Site) (fault : GrammarFault) :
    Moves d id (record site fault) (record (site.move d) fault) := by
  intro c
  simp [record, Reply.move, Cursor.move, Cursor.record, GrammarError.move]

theorem boundary_move (dropped : Token) (ts : List Token) :
    boundary (dropped.move d) (ts.map (Token.move d)) =
      (boundary dropped ts).map (Token.move d) := by
  induction ts generalizing dropped with
  | nil => rfl
  | cons t ts ih =>
    have hstarts : startsStatement (t.move d) = startsStatement t := rfl
    simp only [boundary, List.map_cons, Token.isEnd_move, Token.kind_move, hstarts]
    rw [ih, apply_ite (List.map (Token.move d)), List.map_cons]
    rfl

theorem moves_assignTo (target : Expr) (equals : Token) (value : Expr) :
    Moves d (Expr.move d) (assignTo target equals value)
      (assignTo (target.move d) (equals.move d) (value.move d)) := by
  cases target with
  | var name => exact moves_freshId.map fun _ => rfl
  | get object name => exact moves_pure _
  | _ => exact (moves_record _ _).map fun _ => rfl

section

/-! Where the tokens have no end, line 0 stands for it, which must stay. -/

variable (hd : d.line 0 = 0)
include hd

theorem peek_move (c : Cursor) : (c.move d).peek = c.peek.move d := by
  obtain ⟨_ | ⟨t, rest⟩, n, errors⟩ := c
  · simp [Cursor.peek, Cursor.move, Cursor.standIn, Token.move, hd]
  · rfl

theorem advance_move (c : Cursor) : (c.move d).advance = c.advance.move d := by
  have hend : (c.move d).atEnd = c.atEnd := by rw [Cursor.atEnd, peek_move hd]; rfl
  unfold Cursor.advance
  rw [hend]
  split
  · rfl
  · simp only [Cursor.move, List.map_tail]

theorem moves_peek : Moves d (Token.move d) peek peek := by
  intro c
  simp only [peek, peek_move hd, Reply.move]

theorem moves_advance : Moves d id advance advance := by
  intro c
  simp only [advance, advance_move hd, Reply.move, id]

theorem moves_take? (kinds : List Kind) :
    Moves d (Option.map (Token.move d)) (take? kinds) (take? kinds) := by
  intro c
  simp only [take?, peek_move hd, advance_move hd, Token.kind_move]
  split <;> rfl

theorem moves_fail (fault : GrammarFault) : Moves d f (fail fault) (fail fault) := by
  intro c
  simp only [fail, peek_move hd, Reply.move, GrammarError.move, Site.ofToken_move]

theorem moves_expect (awaited : Awaited) :
    Moves d (Token.move d) (expect awaited) (expect awaited) := by
  intro c
  simp only [expect, peek_move hd, advance_move hd, Token.kind_move]
  split
  · rfl
  · exact moves_fail hd _ c

theorem moves_unlessNext (kind : Kind) {phrase : Rule α} {phrase' : Rule β}
    (h : Moves d f phrase phrase') :
    Moves d (Option.map f) (unlessNext kind phrase) (unlessNext kind phrase') := by
  refine (moves_peek hd).bind fun t => ?_
  rw [Token.kind_move]
  split
  · exact moves_pure none
  · exact h.map fun _ => rfl

theorem resynchronize_move (c : Cursor) : resynchronize (c.move d) = (resynchronize c).move d := by
  have hend : (c.move d).atEnd = c.atEnd := by rw [Cursor.atEnd, peek_move hd]; rfl
  unfold resynchronize
  rw [hend, peek_move hd]
  split
  · rfl
  · simp only [Cursor.move, ← List.map_tail, boundary_move]

theorem moves_recover {phrase : Rule α} {phrase' : Rule β} (h : Moves d f phrase phrase') :
    Moves d (Option.map f) (recover phrase) (recover phrase') := by
  intro c
  simp only [recover, h c]
  cases phrase c with
  | ok v c => rfl
  | fail e c =>
    have hrecord : (c.move d).record (e.move d) = (c.record e).move d := by
      simp [Cursor.record, Cursor.move]
    simp only [Reply.move, hrecord, resynchronize_move hd, Option.map_none]
  | exhausted => rfl

theorem moves_manyUntil {stops : Token → Bool} (hstops : ∀ t : Token, stops (t.move d) = stops t)
    {phrase : Rule (Option α)} {phrase' : Rule (Option β)}
    (h : Moves d (Option.map f) phrase phrase') (steps : Nat) :
    Moves d (List.map f) (manyUntil stops phrase steps) (manyUntil stops phrase' steps) := by
  induction steps with
  | zero => exact moves_exhausted
  | succ steps ih =>
    refine (moves_peek hd).bind fun t => ?_
    rw [hstops]
    split
    · exact moves_pure []
    · exact h.bind fun first => ih.map fun others => by cases first <;> rfl

theorem moves_limit (listed : Listed) (count : Nat) :
    Moves d id (limit listed count) (limit listed count) := by
  refine (moves_peek hd).bind fun t => ?_
  split
  · exact moves_record _ _
  · exact moves_pure ()

theorem moves_commaSeparated (listed : Listed) {phrase : Rule α} {phrase' : Rule β}
    (h : Moves d f phrase phrase') (steps count : Nat) :
    Moves d (List.map f) (commaSeparated listed phrase steps count)
      (commaSeparated listed phrase' steps count) := by
  induction steps generalizing count with
  | zero => exact moves_exhausted
  | succ steps ih =>
    refine (moves_limit hd listed count).bind fun _ => h.bind fun first =>
      (moves_take? hd _).bind fun comma => ?_
    cases comma with
    | none => exact moves_pure [first]
    | some _ => exact (ih (count + 1)).map fun _ => rfl

theorem moves_parenthesized (listed : Listed) {phrase : Rule α} {phrase' : Rule β}
    (h : Moves d f phrase phrase') (steps : Nat) :
    Moves d (List.map f) (parenthesized listed phrase steps)
      (parenthesized listed phrase' steps) :=
  (moves_unlessNext hd _ (moves_commaSeparated hd listed h steps 0)).map fun
    | none => rfl
    | some _ => rfl

/-! ## Expressions -/

theorem moves_chainFrom {level : Level} (hl : level ∈ Level.all) {operand : Rule Expr}
    (h : Moves d (Expr.move d) operand operand) (steps : Nat) (left : Expr) :
    Moves d (Expr.move d) (chainFrom level operand steps left)
      (chainFrom level operand steps (left.move d)) := by
  induction steps generalizing left with
  | zero => exact moves_exhausted
  | succ steps ih =>
    refine (moves_take? hd _).bind fun operator => ?_
    cases operator with
    | none => exact moves_pure left
    | some operator =>
      refine h.bind fun right => ?_
      rw [← Level.move_build hl]
      exact ih _

theorem moves_chains {levels : List Level} (hl : ∀ level ∈ levels, level ∈ Level.all)
    {operand : Rule Expr} (h : Moves d (Expr.move d) operand operand) (steps : Nat) :
    Moves d (Expr.move d) (chains levels operand steps) (chains levels operand steps) := by
  induction levels with
  | nil => exact h
  | cons level tighter ih =>
    obtain ⟨hlevel, htighter⟩ := List.forall_mem_cons.1 hl
    exact (ih htighter).bind fun left => moves_chainFrom hd hlevel (ih htighter) steps left

theorem moves_primary {expression : Rule Expr}
    (h : Moves d (Expr.move d) expression expression) :
    Moves d (Expr.move d) (primary expression) (primary expression) := by
  refine (moves_peek hd).bind fun t => ?_
  rw [Token.kind_move]
  split
  · exact (moves_advance hd).map fun _ => rfl
  · exact (moves_advance hd).map fun _ => rfl
  · exact (moves_advance hd).map fun _ => rfl
  · exact (moves_advance hd).map fun _ => rfl
  · exact (moves_advance hd).map fun _ => rfl
  · exact (moves_advance hd).bind fun _ => (moves_expect hd _).bind fun _ =>
      (moves_expect hd _).bind fun _ => moves_freshId.map fun _ => rfl
  · exact (moves_advance hd).bind fun _ => moves_freshId.map fun _ => rfl
  · exact (moves_advance hd).bind fun _ => moves_freshId.map fun _ => rfl
  · exact (moves_advance hd).bind fun _ => h.bind fun _ => (moves_expect hd _).map fun _ => rfl
  · exact moves_fail hd _

theorem moves_accesses {expression : Rule Expr} (h : Moves d (Expr.move d) expression expression)
    (steps : Nat) (object : Expr) :
    Moves d (Expr.move d) (accesses expression steps object)
      (accesses expression steps (object.move d)) := by
  induction steps generalizing object with
  | zero => exact moves_exhausted
  | succ steps ih =>
    refine (moves_take? hd _).bind fun opening => ?_
    cases opening with
    | some _ =>
      refine (moves_parenthesized hd _ h steps).bind fun arguments =>
        (moves_expect hd _).bind fun close => ?_
      rw [← Expr.moveAll_eq_map]
      exact ih (.call object close arguments)
    | none =>
      refine (moves_take? hd _).bind fun dot => ?_
      cases dot with
      | some _ => exact (moves_expect hd _).bind fun name => ih (.get object name)
      | none => exact moves_pure object

theorem moves_expression_unary (steps : Nat) :
    Moves d (Expr.move d) (expression steps) (expression steps) ∧
      Moves d (Expr.move d) (unary steps) (unary steps) := by
  induction steps with
  | zero => exact ⟨moves_exhausted, moves_exhausted⟩
  | succ steps ih =>
    constructor
    · refine (moves_chains hd (fun _ h => h) ih.2 steps).bind fun left =>
        (moves_take? hd _).bind fun equals => ?_
      cases equals with
      | none => exact moves_pure left
      | some equals => exact ih.1.bind fun value => moves_assignTo left equals value
    · refine (moves_take? hd _).bind fun operator => ?_
      cases operator with
      | some operator => exact ih.2.map fun _ => rfl
      | none =>
        exact (moves_primary hd ih.1).bind fun object => moves_accesses hd ih.1 steps object

theorem moves_expression (steps : Nat) :
    Moves d (Expr.move d) (expression steps) (expression steps) :=
  (moves_expression_unary hd steps).1

/-! ## Statements -/

theorem moves_clause (kind : Kind) (steps : Nat) :
    Moves d (Option.map (Expr.move d)) (unlessNext kind (expression steps))
      (unlessNext kind (expression steps)) :=
  moves_unlessNext hd kind (moves_expression hd steps)

theorem moves_variableDeclaration (steps : Nat) :
    Moves d (Stmt.move d) (variableDeclaration steps) (variableDeclaration steps) := by
  refine (moves_expect hd _).bind fun name => (moves_take? hd _).bind fun equals => ?_
  cases equals with
  | none => exact (moves_expect hd _).map fun _ => rfl
  | some _ => exact (moves_expression hd steps).bind fun _ => (moves_expect hd _).map fun _ => rfl

theorem moves_expressionStatement (steps : Nat) :
    Moves d (Stmt.move d) (expressionStatement steps) (expressionStatement steps) :=
  (moves_expression hd steps).bind fun _ => (moves_expect hd _).map fun _ => rfl

theorem moves_printStatement (steps : Nat) :
    Moves d (Stmt.move d) (printStatement steps) (printStatement steps) :=
  (moves_expression hd steps).bind fun _ => (moves_expect hd _).map fun _ => rfl

theorem moves_returnStatement (steps : Nat) (keyword : Token) :
    Moves d (Stmt.move d) (returnStatement steps keyword)
      (returnStatement steps (keyword.move d)) :=
  (moves_clause hd _ steps).bind fun _ => (moves_expect hd _).map fun _ => rfl

variable {declaration : Rule (Option Stmt)}

theorem moves_block (h : Moves d (Option.map (Stmt.move d)) declaration declaration)
    (steps : Nat) :
    Moves d (List.map (Stmt.move d)) (block declaration steps) (block declaration steps) :=
  (moves_manyUntil hd (fun _ => rfl) h steps).bind fun _ => (moves_expect hd _).map fun _ => rfl

theorem moves_function (role : Role)
    (h : Moves d (Option.map (Stmt.move d)) declaration declaration) (steps : Nat) :
    Moves d (FunctionDecl.move d) (function role declaration steps)
      (function role declaration steps) := by
  refine (moves_expect hd _).bind fun name => (moves_expect hd _).bind fun _ =>
    (moves_parenthesized hd _ (moves_expect hd _) steps).bind fun params =>
    (moves_expect hd _).bind fun _ => (moves_expect hd _).bind fun _ =>
    (moves_block hd h steps).map fun body => ?_
  rw [FunctionDecl.move, Stmt.moveAll_eq_map]

theorem moves_superclass : Moves d (Option.map (Occurrence.move d)) superclass superclass := by
  refine (moves_take? hd _).bind fun less => ?_
  cases less with
  | none => exact moves_pure none
  | some _ => exact (moves_expect hd _).bind fun _ => moves_freshId.map fun _ => rfl

theorem moves_classDeclaration (h : Moves d (Option.map (Stmt.move d)) declaration declaration)
    (steps : Nat) :
    Moves d (Stmt.move d) (classDeclaration declaration steps)
      (classDeclaration declaration steps) := by
  have hmethod : Moves d (Option.map (FunctionDecl.move d))
      (function .method declaration steps >>= fun m => Pure.pure (some m))
      (function .method declaration steps >>= fun m => Pure.pure (some m)) :=
    (moves_function hd .method h steps).map fun _ => rfl
  refine (moves_expect hd _).bind fun name => (moves_superclass hd).bind fun parent =>
    (moves_expect hd _).bind fun _ =>
    (moves_manyUntil hd (fun _ => rfl) hmethod steps).bind fun methods =>
    (moves_expect hd _).map fun _ => ?_
  rw [Stmt.move, FunctionDecl.moveAll_eq_map]

theorem moves_forInitializer (steps : Nat) :
    Moves d (Option.map (Stmt.move d)) (forInitializer steps) (forInitializer steps) := by
  refine (moves_peek hd).bind fun t => ?_
  rw [Token.kind_move]
  split
  · exact (moves_advance hd).map fun _ => rfl
  · exact (moves_advance hd).bind fun _ => (moves_variableDeclaration hd steps).map fun _ => rfl
  · exact (moves_expressionStatement hd steps).map fun _ => rfl

variable {statement : Rule Stmt}

theorem moves_forStatement (h : Moves d (Stmt.move d) statement statement) (steps : Nat) :
    Moves d (Stmt.move d) (forStatement statement steps) (forStatement statement steps) :=
  (moves_expect hd _).bind fun _ => (moves_forInitializer hd steps).bind fun _ =>
    (moves_clause hd _ steps).bind fun _ => (moves_expect hd _).bind fun _ =>
    (moves_clause hd _ steps).bind fun _ => (moves_expect hd _).bind fun _ =>
    h.map fun _ => (Stmt.move_forLoop _ _ _ _).symm

theorem moves_ifStatement (h : Moves d (Stmt.move d) statement statement) (steps : Nat) :
    Moves d (Stmt.move d) (ifStatement statement steps) (ifStatement statement steps) := by
  refine (moves_expect hd _).bind fun _ => (moves_expression hd steps).bind fun _ =>
    (moves_expect hd _).bind fun _ => h.bind fun _ => (moves_take? hd _).bind fun other => ?_
  cases other with
  | none => exact moves_pure _
  | some _ => exact h.map fun _ => rfl

theorem moves_whileStatement (h : Moves d (Stmt.move d) statement statement) (steps : Nat) :
    Moves d (Stmt.move d) (whileStatement statement steps) (whileStatement statement steps) :=
  (moves_expect hd _).bind fun _ => (moves_expression hd steps).bind fun _ =>
    (moves_expect hd _).bind fun _ => h.map fun _ => rfl

theorem moves_statement_declaration (steps : Nat) :
    Moves d (Stmt.move d) (Rule.statement steps) (Rule.statement steps) ∧
      Moves d (Option.map (Stmt.move d)) (Rule.declaration steps) (Rule.declaration steps) := by
  induction steps with
  | zero => exact ⟨moves_exhausted, moves_exhausted⟩
  | succ steps ih =>
    constructor
    · refine (moves_peek hd).bind fun t => ?_
      rw [Token.kind_move]
      split
      · exact (moves_advance hd).bind fun _ => moves_forStatement hd ih.1 steps
      · exact (moves_advance hd).bind fun _ => moves_ifStatement hd ih.1 steps
      · exact (moves_advance hd).bind fun _ => moves_printStatement hd steps
      · exact (moves_advance hd).bind fun _ => moves_returnStatement hd steps t
      · exact (moves_advance hd).bind fun _ => moves_whileStatement hd ih.1 steps
      · refine (moves_advance hd).bind fun _ => (moves_block hd ih.2 steps).map fun body => ?_
        rw [Stmt.move, Stmt.moveAll_eq_map]
      · exact moves_expressionStatement hd steps
    · refine moves_recover hd ((moves_peek hd).bind fun t => ?_)
      rw [Token.kind_move]
      split
      · exact (moves_advance hd).bind fun _ => moves_classDeclaration hd ih.2 steps
      · exact (moves_advance hd).bind fun _ =>
          (moves_function hd .function ih.2 steps).map fun _ => rfl
      · exact (moves_advance hd).bind fun _ => moves_variableDeclaration hd steps
      · exact ih.1

theorem moves_program (steps : Nat) :
    Moves d (List.map (Stmt.move d)) (program steps) (program steps) :=
  moves_manyUntil hd (fun _ => rfl) (moves_statement_declaration hd steps).2 steps

end

end Rule

namespace Parsed

def move (d : Move) (parsed : Parsed) : Parsed :=
  ⟨Stmt.moveAll d parsed.statements, parsed.errors.map (GrammarError.move d),
    parsed.nextId + d.ids⟩

/-- Moved tokens are read as the tokens themselves, whether or not there are faults. -/
theorem ofTokens_move (hd : d.line 0 = 0) (tokens : List Token) (first : Nat) :
    ofTokens (tokens.map (Token.move d)) (first + d.ids) = (ofTokens tokens first).move d := by
  have hprogram := Rule.moves_program hd (steps tokens.length) ⟨tokens, first, []⟩
  unfold ofTokens
  rw [List.length_map]
  change Rule.program (steps tokens.length) ⟨tokens.map (Token.move d), first + d.ids, []⟩ = _
    at hprogram
  rw [hprogram]
  cases Rule.program (steps tokens.length) ⟨tokens, first, []⟩ with
  | ok statements c => simp [Reply.move, move, Cursor.move, Stmt.moveAll_eq_map]
  | fail e c => simp [Reply.move, move, Cursor.move, Stmt.moveAll]
  | exhausted => simp [Reply.move, move, Stmt.moveAll]

end Parsed

end LoxLang
