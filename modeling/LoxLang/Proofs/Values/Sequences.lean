import LoxLang.Machine.Evaluation

/-!
# Programs as sequences of statements

A program runs its statements one after another and then flushes the sink.

1. `Eval.program_eq`: a program is its statements and then a flush.
2. `Eval.sequence_append`: two sequences of statements, one after the other.
-/

namespace LoxLang

namespace Step

variable {μ α β γ : Type}

theorem bind_assoc (first : Step μ α) (next : α → Step μ β) (last : β → Step μ γ) :
    first >>= next >>= last = first >>= fun a => next a >>= last := by
  funext m
  change Step.bind (Step.bind first next) last m = Step.bind first (fun a => next a >>= last) m
  simp only [Step.bind]
  cases first m <;> rfl

end Step

namespace Eval

/-- Runs statements in order, as a program does: a `return` ends its own statement only. -/
def sequence (budget : Nat) : List Stmt → Eval Unit
  | [] => return ()
  | s :: rest => do
    let _ ← stmt budget s
    sequence budget rest

/-- A program is its statements and then a flush. -/
theorem program_eq (budget : Nat) (statements : List Stmt) :
    program budget statements = sequence budget statements >>= fun _ => flush := by
  induction statements with
  | nil => rfl
  | cons s rest ih => rw [program, sequence, ih, Step.bind_assoc]

/-- The flush at the end of a program changes no machine. -/
theorem machine_program (budget : Nat) (statements : List Stmt) (m : Machine) :
    (program budget statements m).machine = (sequence budget statements m).machine := by
  rw [program_eq]
  change (Step.bind (sequence budget statements) (fun _ => flush) m).machine = _
  unfold Step.bind
  cases sequence budget statements m with
  | done value n =>
    simp only [flush]
    split <;> rfl
  | failed failure n => rfl
  | exhausted n => rfl

theorem sequence_append (budget : Nat) (before after : List Stmt) :
    sequence budget (before ++ after) =
      sequence budget before >>= fun _ => sequence budget after := by
  induction before with
  | nil => rfl
  | cons s before ih => rw [List.cons_append, sequence, sequence, ih, Step.bind_assoc]

end Eval

end LoxLang
