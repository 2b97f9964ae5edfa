import LoxLang.Proofs.Loops.Verdicts
import LoxLang.Proofs.Renaming.Programs

/-!
# Runs without numbers

What a program does has nothing to do with the numbers of its mentions, as long as each has its own.

1. `Stmt.allAlike_unnumbered`: a program without its numbers is alike.
2. `Session.Reachable.runReading_of_unnumbered`: runs of two programs that are the same but for
   numbers.
-/

namespace LoxLang

/-! ## Trees -/

namespace Pairing

theorem after_unnumbered (s : Stmt) (ρ : Option Pairing) : after s s.unnumbered ρ = after s s ρ := by
  cases s with
  | funDecl decl => cases decl; rfl
  | _ => rfl

theorem after_unnumbered_eq {s : Stmt} (h : s.declared? = none) (ρ : Option Pairing) :
    after s s.unnumbered ρ = ρ :=
  (after_unnumbered s ρ).trans (after_self h ρ)

end Pairing

theorem Pairing.Diagonal.after_unnumbered {ρ : Option Pairing} (h : (known ρ).Diagonal)
    (s : Stmt) : (known (Pairing.after s s.unnumbered ρ)).Diagonal := by
  rw [Pairing.after_unnumbered]
  exact h.after_self s

variable {P : String → Prop}

theorem Occurrence.alike_unnumbered {ρ : Pairing} (hρ : ρ.Diagonal) (o : Occurrence) :
    o.Alike Eq ρ o.unnumbered :=
  ⟨Pairing.pairs_diagonal hρ o.name, rfl⟩

mutual

theorem Expr.alike_unnumbered {ρ : Pairing} (hρ : ρ.Diagonal) :
    (e : Expr) → e.Alike Eq ρ e.unnumbered
  | .literal value => .literal value
  | .grouping inner => .grouping (inner.alike_unnumbered hρ)
  | .unary operator operand => .unary operator.alike_self (operand.alike_unnumbered hρ)
  | .binary left operator right =>
    .binary (left.alike_unnumbered hρ) operator.alike_self (right.alike_unnumbered hρ)
  | .logical left operator right =>
    .logical (left.alike_unnumbered hρ) operator.alike_self (right.alike_unnumbered hρ)
  | .var name => .var (name.alike_unnumbered hρ)
  | .assign target value => .assign (target.alike_unnumbered hρ) (value.alike_unnumbered hρ)
  | .call callee close arguments =>
    .call (callee.alike_unnumbered hρ) close.alike_self (Expr.allAlike_unnumbered hρ arguments)
  | .get object name => .get (object.alike_unnumbered hρ) name.alike_self
  | .set object name value =>
    .set (object.alike_unnumbered hρ) name.alike_self (value.alike_unnumbered hρ)
  | .this keyword => .this (keyword.alike_unnumbered hρ)
  | .super _ method =>
    .super rfl (Pairing.pairs_diagonal hρ _) (Pairing.pairs_diagonal hρ _) method.alike_self

theorem Expr.allAlike_unnumbered {ρ : Pairing} (hρ : ρ.Diagonal) :
    (es : List Expr) → Expr.AllAlike Eq ρ es (Expr.unnumberedAll es)
  | [] => .nil
  | e :: rest => .cons (e.alike_unnumbered hρ) (Expr.allAlike_unnumbered hρ rest)

end

mutual

theorem Stmt.alike_unnumbered {ρ : Option Pairing} (hρ : (Pairing.known ρ).Diagonal) :
    (s : Stmt) → s.Formed P → s.Alike Eq ρ s.unnumbered
  | .expression value, _ => .expression (value.alike_unnumbered hρ)
  | .print value, _ => .print (value.alike_unnumbered hρ)
  | .varDecl _ none, _ => .varDecl (fun _ => rfl) .none
  | .varDecl name (some value), _ =>
    .varDecl (fun _ => rfl) (.some (value.alike_unnumbered (hρ.declare name.lexeme)))
  | .block body, h => .block (Stmt.allAlike_unnumbered (ρ := some _) hρ body h)
  | .ifThen condition thenBranch, h =>
    .ifThen (condition.alike_unnumbered hρ) (thenBranch.alike_unnumbered hρ h.2.1)
      (Pairing.after_unnumbered_eq h.2.2 ρ)
  | .ifElse condition thenBranch elseBranch, h =>
    .ifElse (condition.alike_unnumbered hρ) (thenBranch.alike_unnumbered hρ h.2.1.1)
      (Pairing.after_unnumbered_eq h.2.1.2 ρ) (elseBranch.alike_unnumbered hρ h.2.2.1)
      (Pairing.after_unnumbered_eq h.2.2.2 ρ)
  | .whileDo condition body, h =>
    .whileDo (condition.alike_unnumbered hρ) (body.alike_unnumbered hρ h.2.1)
      (Pairing.after_unnumbered_eq h.2.2 ρ)
  | .funDecl ⟨name, params, body⟩, h =>
    .funDecl (FunctionDecl.alike_unnumbered (hρ.declare name.lexeme) ⟨name, params, body⟩ h)
  | .ret _ none, _ => .ret .none
  | .ret _ (some value), _ => .ret (.some (value.alike_unnumbered hρ))
  | .classDecl name none methods, h =>
    .classDecl rfl .none (FunctionDecl.allAlike_unnumbered ((hρ.declare name.lexeme).cons "this")
      methods h.2.2)
  | .classDecl name (some parent) methods, h =>
    .classDecl rfl (.some (parent.alike_unnumbered hρ)) (FunctionDecl.allAlike_unnumbered
      (((hρ.declare name.lexeme).inherit (some parent)).cons "this") methods h.2.2)

theorem FunctionDecl.alike_unnumbered {ρ : Pairing} (hρ : ρ.Diagonal) :
    (decl : FunctionDecl) → decl.Formed P → decl.Alike Eq ρ decl.unnumbered
  | ⟨_, params, body⟩, h =>
    .mk rfl rfl (Stmt.allAlike_unnumbered (ρ := some _) (hρ.declareAll_self params) body h.2.2)

/-- A program, and the program without its numbers. -/
theorem Stmt.allAlike_unnumbered {ρ : Option Pairing} (hρ : (Pairing.known ρ).Diagonal) :
    (body : List Stmt) → Stmt.AllFormed P body →
      Stmt.AllAlike Eq ρ body (Stmt.unnumberedAll body)
  | [], _ => .nil
  | s :: rest, h =>
    .cons (s.alike_unnumbered hρ h.1) (Stmt.allAlike_unnumbered (hρ.after_unnumbered s) rest h.2)

theorem FunctionDecl.allAlike_unnumbered {ρ : Pairing} (hρ : ρ.Diagonal) :
    (methods : List FunctionDecl) → FunctionDecl.AllFormed P methods →
      FunctionDecl.AllAlike Eq ρ methods (FunctionDecl.unnumberedAll methods)
  | [], _ => .nil
  | m :: rest, h =>
    .cons (m.alike_unnumbered hρ h.1) (FunctionDecl.allAlike_unnumbered hρ rest h.2)

end

/-! ## Runs -/

/-- A text as it was read, without the numbers of its mentions. -/
def Reading.unnumbered (reading : Reading) : Reading :=
  { reading with statements := Stmt.unnumberedAll reading.statements }

/-- Where numbers have no meaning, a program runs as it does without them. -/
theorem Located.Alpha.Ahead.run_unnumbered {s : Located.Session} (h : Ahead 0 s s) (budget : Nat)
    {reading : Reading} (hformed : reading.errors = [] → Stmt.AllFormed P reading.statements) :
    (s.runReading budget reading).1 = (s.runReading budget reading.unnumbered).1 ∧
      Ahead 0 (s.runReading budget reading).2 (s.runReading budget reading.unnumbered).2 := by
  by_cases herrors : reading.errors = []
  · have herrors' : reading.unnumbered.errors = [] := herrors
    cases hresolve : resolve reading.statements with
    | error errors =>
      have hresolve' : resolve reading.unnumbered.statements = .error errors :=
        resolve_unnumberedAll_error hresolve
      simp only [Session.runReading, herrors, herrors', hresolve, hresolve', List.isEmpty_nil,
        if_true]
      exact ⟨trivial, h.machine, rfl⟩
    | ok distances =>
      obtain ⟨distances', hresolve'⟩ := resolve_unnumberedAll hresolve
      exact h.runReading budget herrors herrors' hresolve hresolve'
        (Stmt.allAlike_unnumbered (ρ := none) (List.forall_mem_nil _) _ (hformed herrors)) rfl
  · rw [← List.isEmpty_iff] at herrors
    simp only [Session.runReading, Reading.unnumbered, herrors]
    exact ⟨rfl, h.machine, rfl⟩

namespace Session

variable {s : Session} {reading reading' : Reading}

/-- A text as a session can run it: it has no errors only if its mentions are numbered apart, from
where the session is on. -/
structure Takes (s : Session) (reading : Reading) : Prop where
  le : s.nextId ≤ reading.nextId
  formed : reading.errors = [] → Stmt.AllFormed IsName reading.statements ∧
    Numbered s.nextId (Stmt.allMentions reading.statements) reading.nextId

/-- Two texts that are the same but for the numbers of their mentions cannot be told apart from
outside by running them, nor by what is done then. -/
theorem Reachable.runReading_of_unnumbered (hs : s.Reachable) (h : s.Takes reading)
    (h' : s.Takes reading') (hsame : reading'.unnumbered = reading.unnumbered) (budget : Nat) :
    let run := s.runReading budget reading
    let run' := s.runReading budget reading'
    run'.1 = run.1 ∧ run'.2.machine.sink = run.2.machine.sink ∧
      ∀ actions, run'.2.trace actions = run.2.trace actions := by
  -- Evaluation with locations finds variables without the numbers of their mentions.
  obtain ⟨w, l, hl, hself⟩ := hs.located
  obtain ⟨hresult, v, hafter⟩ := hl.runReading budget h.le h.formed
  obtain ⟨hresult', v', hafter'⟩ := hl.runReading budget h'.le h'.formed
  obtain ⟨hbare, hahead⟩ := hself.run_unnumbered budget fun herrors => (h.formed herrors).1
  obtain ⟨hbare', hahead'⟩ := hself.run_unnumbered budget fun herrors => (h'.formed herrors).1
  rw [hsame] at hbare' hahead'
  refine ⟨?_, ?_, fun actions => ?_⟩
  · rw [hresult', hbare', ← hbare, ← hresult]
  · rw [hafter'.related.corresponds.sink, hahead'.machine.sink, ← hahead.machine.sink,
      ← hafter.related.corresponds.sink]
  · rw [hafter'.trace_eq, hahead'.trace_eq, ← hahead.trace_eq, ← hafter.trace_eq]

end Session

end LoxLang
