import LoxLang.Machine

/-!
# Runs that end alike

Two steps on different machines end alike if both have results, both fail, or both use up their
budgets. What their results, failures and machines have in common is left open.

1. `Ending.Alike.bind`: steps one after another end alike if each of them does.
-/

namespace LoxLang

variable {μ ν α β γ δ : Type}

theorem Step.bind_of_done {first : Step μ α} {next : α → Step μ β} {m n : μ} {a : α}
    (h : first m = .done a n) : (first >>= next) m = next a n := by
  change Step.bind first next m = next a n
  simp only [Step.bind, h]

theorem Step.bind_of_failed {first : Step μ α} {next : α → Step μ β} {m n : μ} {failure : Failure}
    (h : first m = .failed failure n) : (first >>= next) m = .failed failure n := by
  change Step.bind first next m = .failed failure n
  simp only [Step.bind, h]

theorem Step.bind_of_exhausted {first : Step μ α} {next : α → Step μ β} {m n : μ}
    (h : first m = .exhausted n) : (first >>= next) m = .exhausted n := by
  change Step.bind first next m = .exhausted n
  simp only [Step.bind, h]

/-- Two ends of the same kind. -/
inductive Ending.Alike (Done : α → μ → β → ν → Prop) (Same : Failure → Failure → Prop)
    (Broken : μ → ν → Prop) : Ending μ α → Ending ν β → Prop
  | done {a : α} {m : μ} {b : β} {n : ν} :
      Done a m b n → Alike Done Same Broken (.done a m) (.done b n)
  | failed {f f' : Failure} {m : μ} {n : ν} :
      Same f f' → Broken m n → Alike Done Same Broken (.failed f m) (.failed f' n)
  | exhausted {m : μ} {n : ν} :
      Broken m n → Alike Done Same Broken (.exhausted m) (.exhausted n)

namespace Ending.Alike

variable {Done : α → μ → β → ν → Prop} {Same : Failure → Failure → Prop} {Broken : μ → ν → Prop}

theorem mono {Done' : α → μ → β → ν → Prop} {Broken' : μ → ν → Prop} {e : Ending μ α}
    {e' : Ending ν β} (h : Alike Done Same Broken e e')
    (hd : ∀ {a m b n}, Done a m b n → Done' a m b n)
    (hb : ∀ {m n}, Broken m n → Broken' m n) : Alike Done' Same Broken' e e' := by
  cases h with
  | done h => exact .done (hd h)
  | failed hf h => exact .failed hf (hb h)
  | exhausted h => exact .exhausted (hb h)

theorem bind {Done' : γ → μ → δ → ν → Prop} {first : Step μ α} {first' : Step ν β}
    {next : α → Step μ γ} {next' : β → Step ν δ} {m : μ} {n : ν}
    (h : Alike Done Same Broken (first m) (first' n))
    (hnext : ∀ {a m b n}, Done a m b n → Alike Done' Same Broken (next a m) (next' b n)) :
    Alike Done' Same Broken ((first >>= next) m) ((first' >>= next') n) := by
  change Alike Done' Same Broken (Step.bind first next m) (Step.bind first' next' n)
  unfold Step.bind
  generalize first m = e at h
  generalize first' n = e' at h
  cases h with
  | done h => exact hnext h
  | failed hf h => exact .failed hf h
  | exhausted h => exact .exhausted h

theorem mapMachine {Done' : α → μ → β → ν → Prop} {Broken' : μ → ν → Prop} {f : μ → μ}
    {f' : ν → ν} {e : Ending μ α} {e' : Ending ν β} (h : Alike Done Same Broken e e')
    (hd : ∀ {a m b n}, Done a m b n → Done' a (f m) b (f' n))
    (hb : ∀ {m n}, Broken m n → Broken' (f m) (f' n)) :
    Alike Done' Same Broken' (e.mapMachine f) (e'.mapMachine f') := by
  cases h with
  | done h => exact .done (hd h)
  | failed hf h => exact .failed hf (hb h)
  | exhausted h => exact .exhausted (hb h)

/-- If the first has a result then so has the second. -/
theorem of_done {a : α} {m : μ} {e' : Ending ν β} (h : Alike Done Same Broken (.done a m) e') :
    ∃ b n, e' = .done b n ∧ Done a m b n := by
  cases h with
  | done h => exact ⟨_, _, rfl, h⟩

end Ending.Alike

end LoxLang
