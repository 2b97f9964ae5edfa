import LoxLang.Proofs.Grammar.Acceptance
import LoxLang.Proofs.Grammar.Trees
import LoxLang.Proofs.Scanning.Spelling
import LoxLang.Session

/-!
# Sources without errors

What is known about a source that is read without an error.

1. `Reading.formed_of_names`: its tree is formed, and its mentions are numbered apart.
-/

namespace LoxLang

namespace Reading

/-- Numbers are only used up. -/
theorem le_nextId (source : String) (first : Nat) : first ≤ (ofSource source first).nextId :=
  Parsed.le_nextId _ first

/-- A source is read without an error exactly if its tokens are a program and its characters are
all part of one. -/
theorem errors_eq_nil_iff {source : String} {first : Nat} :
    (ofSource source first).errors = [] ↔
      (scan source).2 = [] ∧
        Grammar.Program first (scan source).1 (ofSource source first).statements
          (ofSource source first).nextId := by
  rw [← Parsed.ofTokens_eq_iff]
  simp only [ofSource, ofTokens, List.append_eq_nil_iff, List.map_eq_nil_iff]
  refine and_congr_right fun _ => ⟨fun h => ?_, fun h => by rw [h]⟩
  rw [← h]

/-- The tree of a source without an error is formed of the names in it, and its mentions are
numbered apart. -/
theorem formed_of_names {P : String → Prop} {source : String} {first : Nat}
    (h : (ofSource source first).errors = [])
    (hnames : ∀ t ∈ (scan source).1, t.kind = .identifier → P t.lexeme) :
    Stmt.AllFormed P (ofSource source first).statements ∧
      Numbered first (Stmt.allMentions (ofSource source first).statements)
        (ofSource source first).nextId := by
  refine (errors_eq_nil_iff.1 h).2.formed fun t ht => ?_
  have hscan := (List.takeWhile_sublist _).subset ht
  exact ⟨hnames t hscan, fun _ => (spelled_of_scan source hscan).lexeme_eq⟩

theorem formed_of_accepted {source : String} {first : Nat}
    (h : (ofSource source first).errors = []) :
    Stmt.AllFormed IsName (ofSource source first).statements ∧
      Numbered first (Stmt.allMentions (ofSource source first).statements)
        (ofSource source first).nextId :=
  formed_of_names h fun _ ht => (spelled_of_scan source ht).isName

end Reading

end LoxLang
