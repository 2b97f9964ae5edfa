import LoxLang.Proofs.Copies.Evaluation
import LoxLang.Proofs.Splitting.Lowering

/-!
# Evaluation of lowered text

A text some lines lower is a copy of that text. So it is evaluated in the same way wherever it
stands, and its failures have the lines of the code in which they arise.

1. `Lowering.alike_copy`: machines that hold the same run copies.
2. `Lowering.simulates_sequence`: the statements of a program.
-/

namespace LoxLang

namespace Lowering

variable {w : Lowering}

/-- The code of one machine as it is on the other: each piece lower or not, and all of it read. -/
def copy (w : Lowering) : Copy where
  toDiscipline := .ofCode (P := fun c => w.Reads c.mentions) fun h c' hc' o ho =>
    h o (Code.mem_mentions.2 (.inr ⟨c', hc', ho⟩))
  moves d := ∃ lines, w.Shifts lines ∧ d = .down lines
  known := w.known
  known' := w.known'
  agree h o ho d hd := by
    obtain ⟨lines, -, rfl⟩ := hd
    exact w.agree o.id (h o (Code.mem_mentions.2 (.inl ho)))

theorem sameClosure_copy {c c' : Closure} : w.SameClosure c c' ↔ w.copy.SameClosure c c' := by
  constructor
  · rintro ⟨⟨lines, hlines, hdecl⟩, hreads, hscope, hi⟩
    exact ⟨⟨.down lines, ⟨lines, hlines, rfl⟩, hdecl⟩, hreads, hscope, hi⟩
  · rintro ⟨⟨d, ⟨lines, hlines, rfl⟩, hdecl⟩, hreads, hscope, hi⟩
    exact ⟨⟨lines, hlines, hdecl⟩, hreads, hscope, hi⟩

theorem likeness_le_copy : w.likeness.Le w.copy.likeness :=
  ⟨sameClosure_copy.1, sameClosure_copy.1⟩

theorem copy_le_likeness : w.copy.likeness.Le w.likeness :=
  ⟨sameClosure_copy.2, sameClosure_copy.2⟩

theorem alike_copy {m m' : Machine} : w.Alike m m' ↔ w.copy.Alike m m' := by
  constructor
  · intro h
    exact { h with
      frames := h.frames.imp fun _ _ hb => hb.mono fun hv => hv.mono likeness_le_copy
      objects := h.objects.imp fun _ _ hb => hb.mono fun hv => hv.mono likeness_le_copy
      bound := fun _ _ => trivial }
  · intro h
    exact { h with
      frames := h.frames.imp fun _ _ hb => hb.mono fun hv => hv.mono copy_le_likeness
      objects := h.objects.imp fun _ _ hb => hb.mono fun hv => hv.mono copy_le_likeness }

theorem sameFailure_of_copy {f f' : Failure} (h : w.copy.SameFailure f f') :
    w.SameFailure f f' := by
  obtain ⟨hflushed, d, ⟨lines, hlines, rfl⟩, rfl⟩ := h
  refine ⟨hflushed, lines, hlines, ?_⟩
  cases f <;> rfl

/-- The statements of a program run alike wherever they stand. -/
theorem simulates_sequence (budget : Nat) {lines : Nat} (hk : w.Shifts lines)
    (statements : List Stmt) (h : w.Reads (Stmt.allMentions statements)) :
    w.Simulates Eq (Eval.sequence budget statements)
      (Eval.sequence budget (Stmt.moveAll (.down lines) statements)) := by
  intro m m' hm
  have hread : ∀ s ∈ statements, w.copy.code (.stmt s) := fun s hs o ho =>
    h o (Code.mem_allMentions_stmts.2 ⟨s, hs, ho⟩)
  have hmoves : w.copy.moves (.down lines) := ⟨lines, hk, rfl⟩
  have hrun := Copy.simulates_sequence budget hmoves statements hread m m' (alike_copy.1 hm)
  generalize Eval.sequence budget statements m = e at hrun ⊢
  generalize Eval.sequence budget (Stmt.moveAll (.down lines) statements) m' = e' at hrun ⊢
  cases hrun with
  | done hn => exact .done ⟨alike_copy.2 hn.1, hn.2⟩
  | failed hf hn => exact .failed (sameFailure_of_copy hf) (alike_copy.2 hn)
  | exhausted hn => exact .exhausted (alike_copy.2 hn)

end Lowering

end LoxLang
