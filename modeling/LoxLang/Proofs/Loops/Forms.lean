import LoxLang.Proofs.Grammar.Unnumbered
import LoxLang.Proofs.Recovery.Isolation

/-!
# The two forms of a loop

A `for` loop can be written as the `while` loop that it stands for. The increment then comes behind
the body, and not before it, so that their mentions get other numbers; all else in the two trees is
the same.

1. `Grammar.Declarations.renumber`: what is derived from one number on is derived from any other.
2. `Grammar.Loop.Derives.forText`, `Grammar.Loop.Derives.whileText`: what the clauses of a loop
   derive in the one form and in the other.
3. `Grammar.Loop.of_statement`: every statement that begins with `for` is such a loop.
-/

namespace LoxLang

namespace Stmt

/-- What a loop repeats: its body, and the increment behind it. -/
def round (increment : Option Expr) (body : Stmt) : Stmt :=
  match increment with
  | some increment => block [body, expression increment]
  | none => body

/-- A loop without its initializer. -/
def repetition (condition increment : Option Expr) (body : Stmt) : Stmt :=
  whileDo (condition.getD (.literal (.boolean true))) (round increment body)

theorem forLoop_none (condition increment : Option Expr) (body : Stmt) :
    forLoop none condition increment body = repetition condition increment body := rfl

theorem forLoop_some (initializer : Stmt) (condition increment : Option Expr) (body : Stmt) :
    forLoop (some initializer) condition increment body =
      block [initializer, repetition condition increment body] := rfl

end Stmt

namespace Grammar

variable {d : Bool} {n n₁ n₂ n₃ n' : Nat} {ts us : List Token} {s : Stmt}

/-! ## Derivations from any number on -/

/-- No declaration has the end of the input in it. -/
theorem Declaration.kind_ne_eof (h : Declaration n ts s n') : ∀ t ∈ ts, t.kind ≠ .eof := by
  let c : Cursor := ⟨ts ++ [], n, []⟩
  have hgo : c.atEnd = false := by
    obtain ⟨t, ht, hk⟩ := h.begins
    obtain ⟨rest, rfl⟩ := List.head?_eq_some_iff.1 ht
    exact isStop_end.goes t hk
  obtain ⟨o, c', hrun, -⟩ := Rule.declaration_ends hgo (Nat.le_refl _)
  have haccepted := h.accepted (2 * c.rest.length + 5) [] [] nofun
  have hadvances := @Rule.declaration_advances (2 * c.rest.length + 5) c hgo
  rw [hrun] at haccepted hadvances
  obtain hnone | hsome := haccepted
  · exact nomatch hnone
  obtain hnone | ⟨_, _, taken, hsame, hsplit, -, htaken⟩ := hadvances
  · exact nomatch hnone
  injection hsome.symm.trans hsame with _ hend
  subst hend
  rwa [List.append_cancel_right hsplit]

theorem Declarations.kind_ne_eof {body : List Stmt} (h : Declarations n ts body n') :
    ∀ t ∈ ts, t.kind ≠ .eof := by
  induction body generalizing n ts with
  | nil => cases h; exact List.forall_mem_nil _
  | cons s rest ih =>
    cases h with
    | cons h hrest => exact List.forall_mem_append.2 ⟨h.kind_ne_eof, ih hrest⟩

/-- What is derived is read so, if the input ends there. -/
theorem Declarations.read_before_iff {body : List Stmt} {rest : List Token}
    (hts : ∀ t ∈ ts, t.kind ≠ .eof) (hrest : (rest.headD Cursor.standIn).isEnd) :
    Parsed.ofTokens (ts ++ rest) n = ⟨body, [], n'⟩ ↔ Declarations n ts body n' := by
  rw [Parsed.ofTokens_eq_iff, Program, Parsed.takeWhile_eq_of_append hts hrest]

theorem Declarations.read_iff {body : List Stmt} (hts : ∀ t ∈ ts, t.kind ≠ .eof) :
    Parsed.ofTokens ts n = ⟨body, [], n'⟩ ↔ Declarations n ts body n' := by
  have hnone : (([] : List Token).headD Cursor.standIn).isEnd := rfl
  rw [← read_before_iff hts hnone, List.append_nil]

theorem Declarations.read {body : List Stmt} (h : Declarations n ts body n') :
    Parsed.ofTokens ts n = ⟨body, [], n'⟩ :=
  (read_iff h.kind_ne_eof).2 h

theorem Declarations.le {body : List Stmt} (h : Declarations n ts body n') : n ≤ n' := by
  have hle := Parsed.le_nextId ts n
  rwa [h.read] at hle

/-- What is derived from one number on is derived from any other, and uses up as many numbers. -/
theorem Declarations.renumber {body : List Stmt} (h : Declarations n ts body n') (m : Nat) :
    ∃ body', Declarations m ts body' (m + (n' - n)) ∧
      Stmt.unnumberedAll body' = Stmt.unnumberedAll body := by
  -- From `n` on and from `m` on, the same is read as from nought on, moved.
  have hn := Parsed.ofTokens_on ts 0 n
  have hm := Parsed.ofTokens_on ts 0 m
  rw [Nat.zero_add] at hn hm
  injection h.read.symm.trans hn with hbody herrors hnext
  rw [← herrors, show (Parsed.ofTokens ts 0).nextId + m = m + (n' - n) by omega] at hm
  refine ⟨_, (read_iff h.kind_ne_eof).1 hm, ?_⟩
  rw [hbody, Stmt.unnumberedAll_moveAll, Stmt.unnumberedAll_moveAll]

theorem Declaration.alone (h : Declaration n ts s n') : Declarations n ts [s] n' := by
  simpa using Declarations.cons h .nil

theorem Declaration.renumber (h : Declaration n ts s n') (m : Nat) :
    ∃ s', Declaration m ts s' (m + (n' - n)) ∧ s'.unnumbered = s.unnumbered := by
  obtain ⟨body', hbody, hsame⟩ := h.alone.renumber m
  generalize m + (n' - n) = m' at hbody ⊢
  cases hbody with
  | nil => exact nomatch hsame
  | cons hs hrest =>
    cases hrest with
    | nil => exact ⟨_, by simpa using hs, (List.cons.inj hsame).1⟩
    | cons _ _ => exact nomatch (List.cons.inj hsame).2

/-! ## The clauses of a loop -/

theorem eq_none_of_clause_nil {o : Option Expr} (h : Clause n [] o n') : o = none ∧ n' = n := by
  cases h with
  | none => exact ⟨rfl, rfl⟩
  | some h =>
    obtain ⟨t, ht, -⟩ := h.begins
    exact nomatch ht

theorem eq_some_of_clause {o : Option Expr} (h : Clause n ts o n') (hts : ts ≠ []) :
    ∃ e, o = some e ∧ Expression n ts e n' := by
  cases h with
  | none => exact absurd rfl hts
  | some h => exact ⟨_, rfl, h⟩

/-- Operands stand where operators of any levels may. -/
theorem operators_of_unary {e : Expr} (h : Unary n ts e n') :
    (levels : List Level) → Operators levels n ts e n'
  | [] => .operand h
  | _ :: levels => .tighter (operators_of_unary h levels)

theorem expression_of_primary {e : Expr} (h : Primary n ts e n') : Expression n ts e n' :=
  .operators (operators_of_unary (.call (.primary h)) _)

/-- The clauses of a loop and its body, as tokens. The semicolon that ends the first clause is part
of it, and all of it if there is none. -/
structure Loop where
  initializer : List Token
  condition : List Token
  increment : List Token
  body : List Token

namespace Loop

/-- `"for" "(" initializer condition? ";" increment? ")" body`. -/
inductive ForText (loop : Loop) : List Token → Prop
  | mk {word opening semicolon close : Token} :
      word.kind = .keyword .forWord → opening.kind = .mark .leftParen →
      semicolon.kind = .mark .semicolon → close.kind = .mark .rightParen →
      ForText loop (word :: opening :: (loop.initializer ++ (loop.condition ++
        semicolon :: (loop.increment ++ close :: loop.body))))

/-- `condition`, or `"true"` if there is none. -/
inductive Test (loop : Loop) : List Token → Prop
  | omitted {word : Token} :
      loop.condition = [] → word.kind = .keyword .trueWord → Test loop [word]
  | given : loop.condition ≠ [] → Test loop loop.condition

/-- `"{" body increment ";" "}"`, or `body` if there is no increment. -/
inductive Round (loop : Loop) : List Token → Prop
  | bare : loop.increment = [] → Round loop loop.body
  | braced {opening semicolon close : Token} :
      loop.increment ≠ [] → opening.kind = .mark .leftBrace →
      semicolon.kind = .mark .semicolon → close.kind = .mark .rightBrace →
      Round loop (opening :: (loop.body ++ (loop.increment ++ [semicolon]) ++ [close]))

/-- `"while" "(" test ")" round`. -/
inductive Repetition (loop : Loop) : List Token → Prop
  | mk {word opening close : Token} {test round : List Token} :
      word.kind = .keyword .whileWord → opening.kind = .mark .leftParen → loop.Test test →
      close.kind = .mark .rightParen → loop.Round round →
      Repetition loop (word :: opening :: (test ++ close :: round))

/-- `"{" initializer repetition "}"`, or `repetition` if there is no initializer. -/
inductive WhileText (loop : Loop) : List Token → Prop
  | bare {semicolon : Token} {ts : List Token} :
      loop.initializer = [semicolon] → loop.Repetition ts → WhileText loop ts
  | braced {opening close : Token} {ts : List Token} :
      (∀ semicolon, loop.initializer ≠ [semicolon]) → opening.kind = .mark .leftBrace →
      loop.Repetition ts → close.kind = .mark .rightBrace →
      WhileText loop (opening :: (loop.initializer ++ ts ++ [close]))

/-- The loop whose clauses and body these are. The flag says whether it ends with an `if` that has
no `else`. -/
inductive Derives (loop : Loop) : Bool → Nat → Stmt → Nat → Prop
  | mk {d : Bool} {n n₁ n₂ n₃ n' : Nat} {initializer : Option Stmt}
      {condition increment : Option Expr} {body s : Stmt} :
      Initializer n loop.initializer initializer n₁ → Clause n₁ loop.condition condition n₂ →
      Clause n₂ loop.increment increment n₃ → Statement d n₃ loop.body body n' →
      Desugars initializer condition increment body s → Derives loop d n s n'

variable {loop : Loop}

theorem Derives.forText (h : loop.Derives d n s n') (hts : loop.ForText ts) :
    Statement d n ts s n' := by
  cases h with
  | mk hinitializer hcondition hincrement hbody hloop =>
    cases hts with
    | mk hword hopening hsemicolon hclose =>
      exact .forLoop hword hopening hinitializer hcondition hsemicolon hincrement hclose hbody
        hloop

/-- Every statement that begins with `for` is a loop with some clauses. -/
theorem of_statement {word : Token} (h : Statement d n (word :: ts) s n')
    (hword : word.kind = .keyword .forWord) :
    ∃ loop : Loop, loop.ForText (word :: ts) ∧ loop.Derives d n s n' := by
  generalize htokens : word :: ts = tokens at h
  have hhead : tokens.head? = some word := by rw [← htokens]; rfl
  cases h with
  | expression h _ =>
    obtain ⟨t, ht, hk⟩ := h.begins.append [_]
    obtain rfl : t = word := Option.some.inj (ht.symm.trans hhead)
    simp [hword, Kind.StartsExpression, Kind.StartsPrimary, Kind.literal?] at hk
  | block h => cases h with
    | braces hk _ _ => simp_all
  | forLoop hk hopening hinitializer hcondition hsemicolon hincrement hclose hbody hloop =>
    exact ⟨⟨_, _, _, _⟩, .mk hk hopening hsemicolon hclose,
      .mk hinitializer hcondition hincrement hbody hloop⟩
  | print hk => simp_all
  | ret hk => simp_all
  | whileDo hk => simp_all
  | ifThen hk => simp_all
  | ifElse hk => simp_all

/-- The first clause is the semicolon alone only if there is no initializer. -/
theorem eq_none_of_initializer {o : Option Stmt} {semicolon : Token}
    (h : Initializer n [semicolon] o n') : o = none ∧ n' = n := by
  generalize hts : [semicolon] = ts at h
  cases h with
  | none => exact ⟨rfl, rfl⟩
  | declaration _ h => cases h <;> simp at hts
  | expression h _ =>
    obtain ⟨t, ht, -⟩ := h.begins
    obtain ⟨rest, rfl⟩ := List.head?_eq_some_iff.1 ht
    simp at hts

theorem eq_some_of_initializer {o : Option Stmt} (h : Initializer n ts o n')
    (hts : ∀ semicolon, ts ≠ [semicolon]) :
    ∃ s, o = some s ∧ Declaration n ts s n' := by
  cases h with
  | none => exact absurd rfl (hts _)
  | declaration hword h => exact ⟨_, rfl, .varDecl hword h⟩
  | expression h hsemicolon => exact ⟨_, rfl, .statement (.expression h hsemicolon)⟩

/-- What stands for the condition. -/
theorem Test.expression {o : Option Expr} (h : Clause n loop.condition o n')
    (htest : loop.Test ts) : Expression n ts (o.getD (.literal (.boolean true))) n' := by
  cases htest with
  | omitted hnil hword =>
    rw [hnil] at h
    obtain ⟨rfl, rfl⟩ := eq_none_of_clause_nil h
    exact expression_of_primary (.literal (by rw [hword]; rfl))
  | given hsome =>
    obtain ⟨e, rfl, he⟩ := eq_some_of_clause h hsome
    exact he

/-- What is repeated has other numbers if there is an increment, for that is read last here. -/
theorem Round.statement {increment : Option Expr} {body : Stmt}
    (hincrement : Clause n loop.increment increment n₁) (hbody : Statement d n₁ loop.body body n')
    (hround : loop.Round ts) :
    ∃ d' s', (d' = true → d = true) ∧ Statement d' n ts s' n' ∧
      s'.unnumbered = (Stmt.round increment body).unnumbered := by
  cases hround with
  | bare hnil =>
    rw [hnil] at hincrement
    obtain ⟨rfl, rfl⟩ := eq_none_of_clause_nil hincrement
    exact ⟨d, body, id, hbody, rfl⟩
  | braced hsome hopening hsemicolon hclose =>
    obtain ⟨e, rfl, he⟩ := eq_some_of_clause hincrement hsome
    have hlast : Declaration n (loop.increment ++ [_]) (.expression e) n₁ :=
      .statement (.expression he hsemicolon)
    obtain ⟨body', hbody', hsame⟩ := (Declaration.statement hbody).renumber n
    obtain ⟨last', hlast', hsame'⟩ := hlast.renumber (n + (n' - n₁))
    have hle := hlast.alone.le
    have hle' := (Declaration.statement hbody).alone.le
    rw [show n + (n' - n₁) + (n₁ - n) = n' by omega] at hlast'
    have hblock : Block n _ [body', last'] n' :=
      .braces hopening (hbody'.alone.append hlast'.alone) hclose
    refine ⟨false, .block [body', last'], nofun, .block hblock, ?_⟩
    simp only [Stmt.unnumbered, Stmt.unnumberedAll, Stmt.round, hsame, hsame']

/-- The loop without its initializer. -/
theorem Repetition.statement {condition increment : Option Expr} {body : Stmt}
    (hcondition : Clause n loop.condition condition n₁)
    (hincrement : Clause n₁ loop.increment increment n₂)
    (hbody : Statement d n₂ loop.body body n') (h : loop.Repetition ts) :
    ∃ d' s', (d' = true → d = true) ∧ Statement d' n ts s' n' ∧
      s'.unnumbered = (Stmt.repetition condition increment body).unnumbered := by
  cases h with
  | mk hword hopening htest hclose hround =>
    obtain ⟨d', s', hd, hs, hsame⟩ := hround.statement hincrement hbody
    refine ⟨d', _, hd,
      .whileDo hword hopening (htest.expression hcondition) hclose hs, ?_⟩
    simp only [Stmt.unnumbered, Stmt.repetition, hsame]

/-- Written as a `while` loop, the clauses are the same statement but for numbers. It ends with an
`if` that has no `else` only if the `for` loop does. -/
theorem Derives.whileText (h : loop.Derives d n s n') (hts : loop.WhileText ts) :
    ∃ d' s', (d' = true → d = true) ∧ Statement d' n ts s' n' ∧ s'.unnumbered = s.unnumbered := by
  cases h with
  | mk hinitializer hcondition hincrement hbody hloop =>
    obtain rfl := desugars_iff.1 hloop
    cases hts with
    | bare hnone hrepetition =>
      rw [hnone] at hinitializer
      obtain ⟨rfl, rfl⟩ := eq_none_of_initializer hinitializer
      rw [Stmt.forLoop_none]
      exact hrepetition.statement hcondition hincrement hbody
    | braced hsome hopening hrepetition hclose =>
      obtain ⟨s, rfl, hs⟩ := eq_some_of_initializer hinitializer hsome
      obtain ⟨d', s', -, hs', hsame⟩ := hrepetition.statement hcondition hincrement hbody
      have hblock : Block n _ [s, s'] n' :=
        .braces hopening (hs.alone.append (Declaration.statement hs').alone) hclose
      refine ⟨false, .block [s, s'], nofun, .block hblock, ?_⟩
      simp only [Stmt.unnumbered, Stmt.unnumberedAll, Stmt.forLoop_some, hsame]

end Loop

end Grammar

end LoxLang
