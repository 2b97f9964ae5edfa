import LoxLang.HostFunctions
import LoxLang.Proofs.Frames.Origins

/-!
# The functions for trying out

1. `HostFunction.toHost`: a host can offer them.
2. `HostFunction.honest`: they make up no classes and no objects.
-/

namespace LoxLang

namespace HostFunction

variable {σ τ : Type} {l : Likeness σ τ}

/-- They look at nothing that differs between values that are alike. -/
theorem run_alike (f : HostFunction) {vs : List (Value σ)} {vs' : List (Value τ)}
    (h : List.Forall₂ (Value.Alike l) vs vs') :
    SameResult (Value.Alike l) (f.run vs) (f.run vs') := by
  have htexts : vs.map Value.text = vs'.map Value.text := by
    induction h with
    | nil => rfl
    | cons hv _ ih => simp [hv.text_eq, ih]
  cases f with
  | double =>
    cases h with
    | nil => rfl
    | cons hv hrest =>
      cases hrest with
      | nil => cases hv <;> first | rfl | exact .number _
      | cons _ _ => cases hv <;> rfl
  | concat =>
    simp only [run, htexts]
    exact .string _
  | type =>
    cases h with
    | nil => exact .string _
    | cons hv _ =>
      simp only [run, List.head?_cons, Option.map_some, Option.getD_some, hv.typeName_eq]
      exact .string _
  | last =>
    have hlast : Option.Rel (Value.Alike l) vs.getLast? vs'.getLast? := by
      have hr := List.rel_reverse h
      rw [List.getLast?_eq_head?_reverse, List.getLast?_eq_head?_reverse]
      generalize vs.reverse = us at hr
      generalize vs'.reverse = us' at hr
      cases hr with
      | nil => exact .none
      | cons hv _ => exact .some hv
    simp only [run]
    generalize vs.getLast? = v at hlast
    generalize vs'.getLast? = v' at hlast
    cases hlast with
    | none => exact .nil
    | some hv => exact hv
  | fail =>
    cases h with
    | nil => rfl
    | cons hv _ => simp [run, SameResult, hv.text_eq]

/-- A function for trying out, as a host offers it. -/
def toHost (f : HostFunction) (arity : Nat) : Host where
  arity := arity
  run := f.run
  blind _ _ _ h := f.run_alike h

/-- They make up no classes and no objects. -/
theorem honest (f : HostFunction) (arity : Nat) : (f.native arity).Honest := by
  rintro _ ⟨rfl⟩ vs v hrun hclass
  cases f with
  | double =>
    unfold run at hrun
    split at hrun <;> try contradiction
    cases hrun
    exact nomatch hclass
  | concat | type =>
    cases hrun
    exact nomatch hclass
  | last =>
    cases hrun
    cases hlast : vs.getLast? with
    | none =>
      rw [hlast] at hclass
      exact nomatch hclass
    | some u => exact List.mem_of_getLast? hlast
  | fail => exact nomatch hrun

end HostFunction

end LoxLang
