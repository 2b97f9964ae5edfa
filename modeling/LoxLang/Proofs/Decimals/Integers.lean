import LoxLang.Proofs.Decimals.Shortest
import Mathlib.Data.Nat.Log

/-!
# Integral values

The shortest digits of an integral value need not be its own: from 2⁵³ on the gaps between doubles
are wider than one, and other integers are read as the same double.

1. `Magnitude.shortestExact_of_lt`: below 2⁵³ they are.
2. `Reads.not_shortestExact`: how to tell that they are not.
-/

namespace LoxLang

open Binary64 Magnitude

variable {m : Magnitude} {q : ℚ} {k s N : Nat} {n : Int}

theorem Binary64.whole?_iff {c : Nat} {e : Int} : whole? c e = some N ↔ (c : ℚ) * 2 ^ e = N := by
  cases e with
  | ofNat e =>
    simp only [whole?, Option.some.injEq, Int.ofNat_eq_natCast, zpow_natCast, Nat.pow_eq]
    exact_mod_cast Iff.rfl
  | negSucc e =>
    rw [zpow_negSucc, ← div_eq_mul_inv, div_eq_iff (by positivity)]
    constructor
    · intro h
      exact_mod_cast (whole?_negSucc h).symm
    · intro h
      have h : c = N * Nat.pow 2 (e + 1) := by exact_mod_cast h
      simp [whole?, h]

/-- What is read as an integer below 2⁵³ is no more than a half away from it. -/
theorem Magnitude.RoundsTo.near_of_lt (h : RoundsTo q m) (hm : m.coefficient ≠ 0)
    (hN : m.value = N) (hlt : N < 2 ^ 53) : N - 1 / 2 ≤ q ∧ q ≤ N + 1 / 2 := by
  have hexponent : m.exponent ≤ 0 := by
    by_contra hgt
    have hbit : leadingBit ≤ m.coefficient :=
      m.normal.resolve_right (by unfold leastExponent; omega)
    have hle : (leadingBit : ℚ) * 2 ^ (1 : Int) ≤ m.value := by
      unfold value
      gcongr
      · norm_num
      · omega
    rw [hN, zpow_one] at hle
    exact hlt.not_ge (by exact_mod_cast hle : leadingBit * 2 ≤ N)
  have hulp : m.ulp ≤ 1 := zpow_le_one_of_nonpos₀ one_le_two hexponent
  have hbelow := m.below_le
  obtain ⟨⟨hlow, hhigh⟩, -⟩ := (roundsTo_iff hm).mp h
  unfold low high at *
  constructor <;> linarith

namespace Shortest

/-- The shortest digits that are an integer reach no fraction. -/
theorem le_of_whole (h : Shortest m n k s) (hvalue : (s : ℚ) * 10 ^ (n - k) = N) :
    (k : Int) ≤ n := by
  by_contra hlt
  obtain ⟨j, hj⟩ : ∃ j : Nat, k - n = j + 1 := ⟨(k - n - 1).toNat, by omega⟩
  rw [← neg_sub, hj, zpow_neg, ← div_eq_mul_inv, div_eq_iff (by positivity)] at hvalue
  have hvalue : s = N * 10 ^ (j + 1) := by exact_mod_cast hvalue
  refine h.not_dvd ⟨N * 10 ^ j, ?_⟩
  rw [hvalue]
  ring

/-- An integral value that has no more digits than its shortest ones has just these. -/
theorem value_eq_of_whole (h : Shortest m n k s) (hm : m.coefficient ≠ 0) (hN : m.value = N)
    (hlt : N < 10 ^ k) : (s : ℚ) * 10 ^ (n - k) = m.value := by
  have hpos : N ≠ 0 := by
    have hpos := value_pos hm
    rw [hN] at hpos
    exact_mod_cast hpos.ne'
  have hreads : Reads m (Nat.log 10 N + 1 : ℕ) (Nat.log 10 N + 1) N :=
    ⟨by omega, Nat.pow_log_le_self 10 hpos, Nat.lt_pow_succ_log_self (by norm_num) N, by
      rw [sub_self, zpow_zero, mul_one, ← hN]
      exact roundsTo_value hm⟩
  refine h.value_eq hreads (Nat.log_lt_of_lt_pow hpos hlt) ?_
  rw [sub_self, zpow_zero, mul_one, hN]

/-- The digits of an integral value below 2⁵³ are its shortest ones: other integers are too far
away, and with a fraction there are no fewer. -/
theorem value_eq_of_lt (h : Shortest m n k s) (hm : m.coefficient ≠ 0) (hN : m.value = N)
    (hlt : N < 2 ^ 53) : (s : ℚ) * 10 ^ (n - k) = m.value := by
  obtain ⟨hdown, hup⟩ := h.roundsTo.near_of_lt hm hN hlt
  obtain hle | hgt := le_or_gt (k : Int) n
  · obtain ⟨j, rfl⟩ := Int.le.dest hle
    rw [add_sub_cancel_left, zpow_natCast] at *
    have hdown : (N : ℚ) < (s * 10 ^ j + 1 : ℕ) := by
      push_cast
      linarith
    have hup : ((s * 10 ^ j : ℕ) : ℚ) < (N + 1 : ℕ) := by
      push_cast
      linarith
    rw [Nat.cast_lt] at hdown hup
    have heq : s * 10 ^ j = N := by omega
    rw [hN, ← heq]
    push_cast
    rfl
  · obtain ⟨j, rfl⟩ := Nat.exists_eq_add_of_le' h.one_le
    have hpow : (10 : ℚ) ^ n ≤ 10 ^ (j : Int) := zpow_le_zpow_right₀ (by norm_num) (by omega)
    have hless := h.lt_zpow
    have hlt : (N : ℚ) < (10 ^ j + 1 : ℕ) := by
      rw [zpow_natCast] at hpow
      push_cast
      linarith
    have hlt := Nat.cast_lt.mp hlt
    have hpos := Nat.pow_pos (n := j) (by norm_num : 0 < 10)
    refine h.value_eq_of_whole hm hN ?_
    rw [pow_succ]
    omega

end Shortest

/-- The shortest digits that are read as `m` have its own value. -/
def Magnitude.ShortestExact (m : Magnitude) : Prop :=
  ∃ n k s, Shortest m n k s ∧ (s : ℚ) * 10 ^ (n - k : Int) = m.value

theorem Magnitude.shortestExact_of_lt (hm : m.coefficient ≠ 0) (hmost : m.exponent ≤ mostExponent)
    (hN : m.value = N) (hlt : N < 2 ^ 53) : m.ShortestExact := by
  obtain ⟨n, k, s, -, h⟩ := Decimal.shortest_spec .up hm hmost
  exact ⟨n, k, s, h, h.value_eq_of_lt hm hN hlt⟩

/-- An integral value that does not end in zero is not its own shortest decimal where fewer digits
are read back. -/
theorem Reads.not_shortestExact (h : Reads m n k s) (hN : m.value = N) (hlast : ¬ 10 ∣ N)
    (hle : 10 ^ k ≤ N) : ¬ m.ShortestExact := by
  rintro ⟨n', k', s', hshort, hvalue⟩
  have hless : s' < N :=
    hshort.lt_pow.trans_le ((Nat.pow_le_pow_right (by norm_num) (hshort.fewest h)).trans hle)
  rw [hN] at hvalue
  obtain ⟨j, rfl⟩ := Int.le.dest (hshort.le_of_whole hvalue)
  rw [add_sub_cancel_left, zpow_natCast] at hvalue
  have hvalue : s' * 10 ^ j = N := by exact_mod_cast hvalue
  cases j with
  | zero => exact hless.ne (by simpa using hvalue)
  | succ j =>
    refine hlast ⟨s' * 10 ^ j, ?_⟩
    rw [← hvalue]
    ring

end LoxLang
