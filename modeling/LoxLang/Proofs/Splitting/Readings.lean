import LoxLang.Proofs.Grammar.Sources
import LoxLang.Proofs.Splitting.Rules
import LoxLang.Proofs.Splitting.Seam

/-!
# Readings of moved sources

What is read of a source does not depend on where it stands, but for lines and for the numbers of
mentions.

1. `Reading.ofSource_append`: a source behind another one and a line end.
2. `Reading.ofSource_lowered`: a source below empty lines.
3. `Reading.ofSource_renumbered`: a source that is read later in a session.
-/

namespace LoxLang

theorem program_scan {source : String} {first next : Nat} {statements : List Stmt} :
    Grammar.Program first (scan source).1 statements next ↔
      Grammar.Declarations first (words source) statements next := by
  unfold Grammar.Program
  rw [scan_fst, Parsed.takeWhile_eq_of_append (fun _ => kind_ne_eof_of_words) rfl]

namespace Reading

variable {source before after : String} {first : Nat}

theorem declarations_of_accepted (h : (ofSource source first).errors = []) :
    (scan source).2 = [] ∧
      Grammar.Declarations first (words source) (ofSource source first).statements
        (ofSource source first).nextId := by
  obtain ⟨hscan, hprogram⟩ := errors_eq_nil_iff.1 h
  exact ⟨hscan, program_scan.1 hprogram⟩

/-- What the tokens of a source derive is what is read. -/
theorem ofSource_eq {statements : List Stmt} {next : Nat} (hscan : (scan source).2 = [])
    (h : Grammar.Declarations first (words source) statements next) :
    ofSource source first = ⟨statements, [], next⟩ := by
  have hparsed := Parsed.ofTokens_eq_iff.2 (program_scan.2 h)
  simp [ofSource, ofTokens, hscan, hparsed]

/-- Behind another source and a line end, a source is read as by itself, moved down. -/
theorem ofSource_append (h : (ofSource before first).errors = [])
    (h' : (ofSource after (ofSource before first).nextId).errors = []) :
    ofSource (before ++ "\n" ++ after) first =
      ⟨(ofSource before first).statements ++ Stmt.moveAll (.down (lineEnds before + 1))
          (ofSource after (ofSource before first).nextId).statements,
        [], (ofSource after (ofSource before first).nextId).nextId⟩ := by
  obtain ⟨hscan, hbefore⟩ := declarations_of_accepted h
  obtain ⟨hscan', hafter⟩ := declarations_of_accepted h'
  refine ofSource_eq (errors_append hscan hscan') ?_
  rw [words_append hscan]
  exact hbefore.append (hafter.move (.down (lineEnds before + 1)))

theorem ofSource_lowered (lines : Nat) (h : (ofSource source first).errors = []) :
    ofSource (lowered lines source) first =
      ⟨Stmt.moveAll (.down lines) (ofSource source first).statements, [],
        (ofSource source first).nextId⟩ := by
  obtain ⟨hscan, hd⟩ := declarations_of_accepted h
  refine ofSource_eq (errors_lowered lines hscan) ?_
  rw [words_lowered]
  exact hd.move (.down lines)

/-- With the numbers of its mentions, a source has another place in a session; its errors are the
same. -/
theorem ofSource_renumbered (source : String) (first ids : Nat) :
    ofSource source (first + ids) =
      ⟨Stmt.moveAll (.on ids) (ofSource source first).statements, (ofSource source first).errors,
        (ofSource source first).nextId + ids⟩ := by
  have hparsed := Parsed.ofTokens_move (d := .on ids) rfl (scan source).1 first
  have htokens : (scan source).1.map (Token.move (.on ids)) = (scan source).1 := List.map_id _
  have herrors : (Parsed.ofTokens (scan source).1 first).errors.map (GrammarError.move (.on ids)) =
      (Parsed.ofTokens (scan source).1 first).errors := List.map_id _
  rw [htokens] at hparsed
  simp only [ofSource, ofTokens]
  change Reading.mk (Parsed.ofTokens (scan source).1 (first + (Move.on ids).ids)).statements
    (_ ++ (Parsed.ofTokens (scan source).1 (first + (Move.on ids).ids)).errors.map _)
    (Parsed.ofTokens (scan source).1 (first + (Move.on ids).ids)).nextId = _
  rw [hparsed, Parsed.move, herrors]
  rfl

end Reading

end LoxLang
