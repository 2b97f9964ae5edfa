import LoxLang.Proofs.Alpha.Sessions
import LoxLang.Proofs.Renaming.Alike
import LoxLang.Proofs.Renaming.Texts
import LoxLang.Proofs.Renaming.Walk

/-!
# Renamed programs do the same

Whatever a local variable is called, a program does the same, as long as its name is not one that
the program uses for something else.

1. `Session.trace_renamed`: a source in which a local variable is renamed.
-/

namespace LoxLang

namespace Located.Alpha

variable {s : Session} {reading reading' : Reading}

/-- Programs without errors that are alike leave a session with the same future. -/
theorem Ahead.runReading (h : Ahead 0 s s) (budget : Nat) (herrors : reading.errors = [])
    (herrors' : reading'.errors = []) {distances distances' : Distances}
    (hresolve : resolve reading.statements = .ok distances)
    (hresolve' : resolve reading'.statements = .ok distances')
    (halike : Stmt.AllAlike Eq none reading.statements reading'.statements)
    (hnext : reading'.nextId = reading.nextId) :
    (s.runReading budget reading).1 = (s.runReading budget reading').1 ∧
      Ahead 0 (s.runReading budget reading).2 (s.runReading budget reading').2 := by
  obtain ⟨hresult, hmachine⟩ :=
    runReading_accepted h.machine budget herrors herrors' hresolve hresolve' halike
  refine ⟨hresult, hmachine, ?_⟩
  rw [nextId_runReading, nextId_runReading, hnext, Nat.add_zero]

end Located.Alpha

namespace Session

variable {s : Session}

/-- Sources whose programs are alike cannot be told apart from outside, then or later. -/
theorem Reachable.trace_alike (hs : s.Reachable) {source source' : String}
    (herrors : (Reading.ofSource source s.nextId).errors = [])
    (herrors' : (Reading.ofSource source' s.nextId).errors = []) {distances distances' : Distances}
    (hresolve : resolve (Reading.ofSource source s.nextId).statements = .ok distances)
    (hresolve' : resolve (Reading.ofSource source' s.nextId).statements = .ok distances')
    (halike : Stmt.AllAlike Eq none (Reading.ofSource source s.nextId).statements
      (Reading.ofSource source' s.nextId).statements)
    (hnext : (Reading.ofSource source' s.nextId).nextId = (Reading.ofSource source s.nextId).nextId)
    (budget : Nat) (actions : List Action) :
    s.trace (.run budget source' :: actions) = s.trace (.run budget source :: actions) := by
  -- Evaluation with locations knows variables by their places, and not by their names.
  obtain ⟨w, l, hsame, hself⟩ := hs.located
  rw [hsame.nextId] at herrors herrors' hresolve hresolve' halike hnext
  obtain ⟨hresult, hafter⟩ :=
    hself.runReading budget herrors herrors' hresolve hresolve' halike hnext
  rw [hsame.trace_eq, hsame.trace_eq, Located.Session.trace, Located.Session.trace]
  simp only [Located.Session.act, Located.Session.run]
  rw [hresult, hafter.machine.sink, hafter.trace_eq]

/-- Let a local variable of a source without errors get a name that occurs nowhere in the source:
where it is declared, and wherever it is read or assigned to or named as a superclass. Then there
is a source that is spelled so, and differs in nothing else; it has no errors, its mentions mean
what they meant, and nothing that happens from then on can tell it from the other. -/
theorem trace_renamed (hs : s.Reachable) {source x y : String} {distances : Distances}
    (herrors : (Reading.ofSource source s.nextId).errors = [])
    (hresolve : resolve (Reading.ofSource source s.nextId).statements = .ok distances)
    (hy : IsIdentifier y) (hfresh : ∀ t ∈ (scan source).1, t.lexeme ≠ y) {renamed : List Stmt}
    (h : Stmt.AllRenames distances x y (Reading.ofSource source s.nextId).statements renamed) :
    ∃ source' : String,
      List.Forall₂ (Span.Respells x y) (Span.tile source.toList) (Span.tile source'.toList) ∧
      Reading.ofSource source' s.nextId =
        ⟨renamed, [], (Reading.ofSource source s.nextId).nextId⟩ ∧
      resolve renamed = .ok distances ∧
      ∀ budget actions,
        s.trace (.run budget source' :: actions) = s.trace (.run budget source :: actions) := by
  have hscan := (Reading.errors_eq_nil_iff.1 herrors).1
  obtain ⟨hformed, hn⟩ := Reading.formed_of_accepted herrors
  have hnew := (Reading.formed_of_names (P := (· ≠ y)) herrors fun t ht _ => hfresh t ht).1
  have hidentifiers := (Reading.formed_of_names (P := IsIdentifier) herrors
    fun t ht hk => isIdentifier_of_scan hscan ht hk).1
  have hx : IsIdentifier x := h.named hidentifiers
  have hxy : x ≠ y := h.named hnew
  have hscoped := scoped_of_resolve (k := ⟨distances, _⟩) hresolve hformed hn (Nat.le_refl _)
    fun _ _ => rfl
  have hresolve' := resolve_renamed hxy hx.isName hy.isName h hresolve hscoped hnew hn
  have halike := Stmt.AllRenames.alike (k := ⟨distances, _⟩) (ρ := none) hx.isName hy.isName nofun h
    hscoped hnew
  obtain ⟨source', hspans, hreading⟩ := Reading.ofSource_respell herrors hx hy h.respells
  refine ⟨source', hspans, hreading, hresolve', fun budget actions => ?_⟩
  have hstatements : (Reading.ofSource source' s.nextId).statements = renamed :=
    congrArg Reading.statements hreading
  rw [← hstatements] at hresolve' halike
  refine hs.trace_alike herrors ?_ hresolve hresolve' halike ?_ budget actions <;> rw [hreading]

/-- A parameter is renamed that a closure assigns to, and that shares its name with an inner
variable and with a global. -/
theorem trace_renamed_captured :
    let s := start .unlimited 0
    let source := "var a = 1; fun f(a) \x7b fun g() \x7b a = a + 1; return a; \x7d " ++
      "\x7b var a = g(); print a; \x7d return g; \x7d print f(4)() + a;"
    (s.run 40 source).1 = .success ∧ (∀ t ∈ (scan source).1, t.lexeme ≠ "b") ∧
      ∃ distances renamed,
        resolve (Reading.ofSource source s.nextId).statements = .ok distances ∧
        Stmt.AllRenames distances "a" "b" (Reading.ofSource source s.nextId).statements renamed ∧
        ∃ source' : String,
          List.Forall₂ (Span.Respells "a" "b") (Span.tile source.toList)
            (Span.tile source'.toList) ∧
          Reading.ofSource source' s.nextId =
            ⟨renamed, [], (Reading.ofSource source s.nextId).nextId⟩ ∧
          resolve renamed = .ok distances ∧
          ∀ budget actions,
            s.trace (.run budget source' :: actions) = s.trace (.run budget source :: actions) := by
  intro s source
  obtain ⟨hrun, herrors, hclean, hfresh, hparam⟩ : (s.run 40 source).1 = .success ∧
      (Reading.ofSource source s.nextId).errors = [] ∧
      (Stmt.resolveAll (Reading.ofSource source s.nextId).statements Resolution.start).errors = [] ∧
      (∀ t ∈ (scan source).1, t.lexeme ≠ "b") ∧
      (Reading.ofSource source s.nextId).statements[1]?.map Stmt.parameters = some ["a"] := by
    decide +kernel
  have hresolve := resolve_eq_ok.2 ⟨hclean, rfl⟩
  obtain ⟨f, hf, hparam⟩ := Option.map_eq_some_iff.1 hparam
  have hx : "a" ∈ f.parameters := hparam ▸ List.mem_singleton_self _
  obtain ⟨f', hrenamed⟩ := Stmt.renames_parameter
    (Stmt.resolveAll (Reading.ofSource source s.nextId).statements Resolution.start).distances
    "b" hx
  obtain ⟨renamed, hrenamed⟩ := hrenamed.among (List.mem_of_getElem? hf)
  have hy : IsIdentifier "b" :=
    .identifier (by decide) (List.forall_mem_nil _) fun k => by cases k <;> decide
  exact ⟨hrun, hfresh, _, renamed, hresolve, hrenamed,
    trace_renamed (.start .unlimited 0) herrors hresolve hy hfresh hrenamed⟩

end Session

end LoxLang
