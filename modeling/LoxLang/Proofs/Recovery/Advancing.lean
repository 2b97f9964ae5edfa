import LoxLang.Proofs.Grammar.Acceptance
import LoxLang.Proofs.Grammar.Steps
import LoxLang.Proofs.Recovery.Framing

/-!
# Reading comes to the end

Whatever the tokens are, and whether or not there are faults in them, reading ends, and it ends where
the input does. Every declaration on the way takes at least one token, also if it fails, and none of
those that it takes ends the input.

1. `Rule.declaration_advances`: one declaration.
2. `Parsed.reads_to_end`: whole token sequences.
-/

namespace LoxLang

namespace Rule

variable {α : Type}

/-- A rule that is passed over when it fails does not fail. -/
theorem recover_ne_fail (phrase : Rule α) (c : Cursor) (e : GrammarError) (c' : Cursor) :
    recover phrase c ≠ .fail e c' := by
  unfold recover
  cases phrase c with
  | _ => exact nofun

theorem declaration_ne_fail (steps : Nat) (c : Cursor) (e : GrammarError) (c' : Cursor) :
    declaration steps c ≠ .fail e c' := by
  cases steps with
  | zero => exact nofun
  | succ steps => exact recover_ne_fail _ c e c'

theorem manyUntil_ne_fail {stops : Token → Bool} {phrase : Rule (Option α)}
    (h : ∀ c e c', phrase c ≠ .fail e c') (steps : Nat) (c : Cursor) (e : GrammarError)
    (c' : Cursor) : manyUntil stops phrase steps c ≠ .fail e c' := by
  intro hrun
  induction steps generalizing c e c' with
  | zero => cases hrun
  | succ steps ih =>
    rw [manyUntil, run_peek] at hrun
    split at hrun
    · cases hrun
    · cases hfirst : phrase c with
      | ok v c₁ =>
        rw [bind_ok hfirst] at hrun
        cases hothers : manyUntil stops phrase steps c₁ with
        | ok vs c₂ =>
          rw [bind_ok hothers] at hrun
          cases hrun
        | fail e₂ c₂ => exact ih c₁ e₂ c₂ hothers
        | exhausted =>
          rw [bind_exhausted hothers] at hrun
          cases hrun
      | fail e₁ c₁ => exact h c e₁ c₁ hfirst
      | exhausted =>
        rw [bind_exhausted hfirst] at hrun
        cases hrun

/-- A declaration is read to its end if there are so many steps for the tokens to come. -/
theorem declaration_ends {steps : Nat} {c : Cursor} (hc : c.atEnd = false)
    (hs : 2 * c.rest.length + 5 ≤ steps) :
    ∃ o c', declaration steps c = .ok o c' ∧ c'.rest.length + 1 ≤ c.rest.length := by
  have hdone := (ends_statement_declaration steps c.rest.length).2 hs c (Nat.le_refl _) hc
  cases hrun : declaration steps c with
  | ok o c' => exact ⟨o, c', rfl, (hrun ▸ hdone :).2⟩
  | fail e c' => exact absurd hrun (declaration_ne_fail steps c e c')
  | exhausted => exact (hrun ▸ hdone :).elim

/-- Behind what a rule has read, the tokens up to the end are the last of those that were to come. -/
theorem stays {r : Rule α} (h : FramesEnd r) {c c' : Cursor} {v : α} (hrun : r c = .ok v c') :
    ∃ kept, kept <:+ c.rest.takeWhile (fun t => !t.isEnd) ∧
      c'.rest = kept ++ c.rest.dropWhile fun t => !t.isEnd := by
  obtain ⟨reply, hleaves, hframes⟩ := h (c.rest.takeWhile fun t => !t.isEnd) c.nextId _
    (Parsed.headD_dropWhile c.rest)
  have hframed := hframes c.errors _ rfl
  rw [List.takeWhile_append_dropWhile, hrun] at hframed
  cases reply with
  | ok v d =>
    cases hframed
    exact ⟨d.rest, hleaves, rfl⟩
  | fail e d => cases hframed
  | exhausted => cases hframed

/-- None of these tokens is the one that ends the input. -/
theorem kind_ne_eof_of_mem {ts : List Token} {t : Token}
    (h : t ∈ ts.takeWhile fun t => !t.isEnd) : t.kind ≠ .eof := by
  simpa [Token.isEnd] using List.all_eq_true.1 List.all_takeWhile t h

/-- Where the end is not reached, a declaration takes tokens, whether or not it can be read, and it
does not take the one that ends the input. -/
theorem declaration_advances {steps : Nat} {c : Cursor} (hc : c.atEnd = false) :
    declaration steps c = .exhausted ∨ ∃ o c' taken, declaration steps c = .ok o c' ∧
      c.rest = taken ++ c'.rest ∧ taken ≠ [] ∧ ∀ t ∈ taken, t.kind ≠ .eof := by
  -- What is read within these steps is read within steps that suffice.
  refine (outlasts_declaration (Nat.le_max_left steps (2 * c.rest.length + 5)) c).imp_right
    fun hsame => ?_
  obtain ⟨o, c', hrun, hshorter⟩ := declaration_ends hc (Nat.le_max_right steps _)
  obtain ⟨kept, ⟨taken, htaken⟩, hkept⟩ := stays (framesEnd_declaration _) hrun
  have hsplit : c.rest = taken ++ c'.rest := by
    rw [hkept, ← List.append_assoc, htaken, List.takeWhile_append_dropWhile]
  refine ⟨o, c', taken, hsame.trans hrun, hsplit, ?_,
    fun t ht => kind_ne_eof_of_mem (htaken ▸ List.mem_append_left kept ht)⟩
  rintro rfl
  rw [hsplit, List.nil_append] at hshorter
  omega

/-- Declarations are read to their end if there are as many steps as tokens to come demand. -/
theorem program_ends (tokens : List Token) (first : Nat) :
    ∃ statements c, program (Parsed.steps tokens.length) ⟨tokens, first, []⟩ = .ok statements c := by
  have hdone := ends_program (Nat.le_refl (Parsed.steps tokens.length)) ⟨tokens, first, []⟩
    (Nat.le_refl _)
  cases hrun : program (Parsed.steps tokens.length) ⟨tokens, first, []⟩ with
  | ok statements c => exact ⟨statements, c, rfl⟩
  | fail e c => exact absurd hrun (manyUntil_ne_fail (declaration_ne_fail _) _ _ e c)
  | exhausted => exact (hrun ▸ hdone :).elim

/-- Declarations are read up to where the input ends. -/
theorem program_stays {steps : Nat} {c c' : Cursor} {statements : List Stmt}
    (h : program steps c = .ok statements c') : c'.rest = c.rest.dropWhile fun t => !t.isEnd := by
  obtain ⟨kept, hsuffix, hkept⟩ := stays (framesEnd_program steps) h
  cases kept with
  | nil => exact hkept
  | cons t kept =>
    have hend : t.isEnd := by simpa [Cursor.peek, hkept] using stops_of_manyUntil h
    have hbefore := kind_ne_eof_of_mem (hsuffix.subset List.mem_cons_self)
    exact absurd (beq_iff_eq.1 hend) hbefore

end Rule

namespace Parsed

/-- Reading always ends, at the end of the input, and is not cut short by the bound on its steps.
And every declaration that does not begin there takes tokens, none of which ends the input. -/
theorem reads_to_end (tokens : List Token) (first : Nat) :
    (∃ statements c, c.rest = tokens.dropWhile (fun t => !t.isEnd) ∧ c.atEnd ∧
        ofTokens tokens first = ⟨statements, c.errors, c.nextId⟩ ∧
        ∀ more, Rule.program (steps tokens.length + more) ⟨tokens, first, []⟩ =
          .ok statements c) ∧
      ∀ (steps : Nat) (c : Cursor), c.atEnd = false →
        (2 * c.rest.length + 5 ≤ steps → Rule.declaration steps c ≠ .exhausted) ∧
        (Rule.declaration steps c = .exhausted ∨
          ∃ o c' taken, Rule.declaration steps c = .ok o c' ∧
            c.rest = taken ++ c'.rest ∧ taken ≠ [] ∧ ∀ t ∈ taken, t.kind ≠ .eof) := by
  refine ⟨?_, fun steps c hc => ⟨fun hs => ?_, Rule.declaration_advances hc⟩⟩
  · obtain ⟨statements, c, hrun⟩ := Rule.program_ends tokens first
    refine ⟨statements, c, Rule.program_stays hrun, Rule.stops_of_manyUntil hrun, ?_, fun more => ?_⟩
    · rw [ofTokens, hrun]
    · exact (Rule.outlasts_program (Nat.le_add_right _ more)).ok hrun
  · obtain ⟨o, c', hrun, -⟩ := Rule.declaration_ends hc hs
    rw [hrun]
    exact nofun

end Parsed

end LoxLang
