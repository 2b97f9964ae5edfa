import LoxLang.Proofs.Grammar.Completeness.Programs
import LoxLang.Proofs.Grammar.Progress
import LoxLang.Proofs.Grammar.Soundness

/-!
# Acceptance

A token sequence is read without a fault exactly if it is a program of the grammar, and then the
tree is that of its derivation.

1. `Parsed.ofTokens_eq_iff`: what is read without a fault is a program, and conversely.
2. `Parsed.accepts_iff_program`: acceptance, and the tree of what is accepted.
-/

namespace LoxLang

namespace Rule

variable {α : Type}

/-- Phrases up to a stop end before one. -/
theorem stops_of_manyUntil {stops : Token → Bool} {phrase : Rule (Option α)} {steps : Nat}
    {c c' : Cursor} {vs : List α} (h : manyUntil stops phrase steps c = .ok vs c') :
    stops c'.peek := by
  induction steps generalizing c vs with
  | zero => cases h
  | succ steps ih =>
    rw [manyUntil, run_peek] at h
    split at h
    · next hstop =>
      cases h
      exact hstop
    · cases hp : phrase c with
      | ok o c₁ =>
        rw [bind_ok hp] at h
        cases hm : manyUntil stops phrase steps c₁ with
        | ok ws c₂ =>
          rw [bind_ok hm] at h
          cases h
          exact ih hm
        | fail e c₂ =>
          rw [bind_fail hm] at h
          cases h
        | exhausted =>
          rw [bind_exhausted hm] at h
          cases h
      | fail e c₁ =>
        rw [bind_fail hp] at h
        cases h
      | exhausted =>
        rw [bind_exhausted hp] at h
        cases h

end Rule

namespace Parsed

/-- The end of the input is reached by what is left of it behind its tokens. -/
theorem headD_dropWhile (tokens : List Token) :
    ((tokens.dropWhile fun t => !t.isEnd).headD Cursor.standIn).kind = .eof := by
  induction tokens with
  | nil => rfl
  | cons t tokens ih =>
    by_cases ht : t.isEnd
    · have hend : t.kind = .eof := by simpa [Token.isEnd] using ht
      simpa [ht] using hend
    · simpa [ht] using ih

/-- What stands before an end token is what comes before the first one. -/
theorem takeWhile_eq_of_append {ts rest : List Token} (hts : ∀ t ∈ ts, t.kind ≠ .eof)
    (hrest : (rest.headD Cursor.standIn).isEnd) :
    ((ts ++ rest).takeWhile fun t => !t.isEnd) = ts := by
  rw [List.takeWhile_append_of_pos (by simpa [Token.isEnd] using hts)]
  cases rest with
  | nil => simp
  | cons t rest =>
    have ht : t.isEnd := hrest
    simp [ht]

/-- A token sequence is read without a fault as a program exactly if it derives that program. -/
theorem ofTokens_eq_iff {tokens : List Token} {first next : Nat} {program : List Stmt} :
    ofTokens tokens first = ⟨program, [], next⟩ ↔ Grammar.Program first tokens program next := by
  have hends := Rule.ends_program (Nat.le_refl (4 * (tokens.length + 1)))
    ⟨tokens, first, []⟩ (Nat.le_refl _)
  have hreads := Rule.reads_program (4 * (tokens.length + 1)) ⟨tokens, first, []⟩
  constructor
  · intro h
    unfold ofTokens steps at h
    cases hrun : Rule.program (4 * (tokens.length + 1)) ⟨tokens, first, []⟩ with
    | ok statements c =>
      rw [hrun] at h hreads
      injection h with hs he hn
      subst hs hn
      obtain ⟨ts, hts, hend, hd⟩ := hreads.2 he
      have hstop := Rule.stops_of_manyUntil hrun
      have htokens : tokens = ts ++ c.rest := hts
      rw [Grammar.Program, htokens, takeWhile_eq_of_append hend hstop]
      exact hd
    | fail e c =>
      rw [hrun] at h
      simp at h
    | exhausted =>
      rw [hrun] at hends
      exact hends.elim
  · intro h
    have hrun := h.accepted Grammar.isStop_end (4 * (tokens.length + 1)) (4 * (tokens.length + 1))
      (tokens.dropWhile fun t => !t.isEnd) [] (headD_dropWhile tokens)
    rw [List.takeWhile_append_dropWhile] at hrun
    unfold ofTokens steps
    -- The steps suffice, so that they do not run out before the derived program is read.
    rcases hrun with hrun | hrun
    · unfold Rule.program at hends
      rw [hrun] at hends
      exact hends.elim
    · unfold Rule.program
      rw [hrun]

/-- Numbers are only used up, whether there are faults or not. -/
theorem le_nextId (tokens : List Token) (first : Nat) : first ≤ (ofTokens tokens first).nextId := by
  have hends := Rule.ends_program (Nat.le_refl (4 * (tokens.length + 1)))
    ⟨tokens, first, []⟩ (Nat.le_refl _)
  unfold ofTokens steps
  cases hrun : Rule.program (4 * (tokens.length + 1)) ⟨tokens, first, []⟩ with
  | ok statements c =>
    rw [hrun] at hends
    exact hends.1.nextId
  | fail e c =>
    rw [hrun] at hends
    exact hends.nextId
  | exhausted => exact Nat.le_refl _

/-- Reading finds no fault exactly if the tokens before the end of the input are a program of the
grammar; then what is read is the tree of that derivation. -/
theorem accepts_iff_program (tokens : List Token) (first : Nat) :
    ((ofTokens tokens first).errors = [] ↔
        ∃ program next, Grammar.Program first tokens program next) ∧
      ∀ program next, Grammar.Program first tokens program next →
        (ofTokens tokens first).statements = program ∧ (ofTokens tokens first).nextId = next := by
  refine ⟨⟨fun h => ?_, ?_⟩, ?_⟩
  · refine ⟨(ofTokens tokens first).statements, (ofTokens tokens first).nextId,
      ofTokens_eq_iff.1 ?_⟩
    rw [← h]
  · rintro ⟨program, next, h⟩
    rw [ofTokens_eq_iff.2 h]
  · intro program next h
    rw [ofTokens_eq_iff.2 h]
    exact ⟨rfl, rfl⟩

end Parsed

end LoxLang
