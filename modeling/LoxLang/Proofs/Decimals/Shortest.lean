import LoxLang.Proofs.Decimals.Grids

/-!
# The shortest digits

The search finds the fewest digits that are read back, and of as many digits the nearest.

1. `Reads`, `Shortest`: what digits are asked for.
2. `Shortest.lt_iff`: how large the value is, by the place of the point.
3. `Decimal.seventeen_digits`: a grid beyond which the search does not go.
4. `Decimal.shortest_spec`: what it finds.
-/

namespace LoxLang

open Binary64 Magnitude

variable {tie : Tie} {m : Magnitude} {c d i k s : Nat} {e n top : Int}

/-- A number `s` of `k` digits, with its point after `n` of them, is read as `m`. -/
structure Reads (m : Magnitude) (n : Int) (k s : Nat) : Prop where
  one_le : 1 ≤ k
  pow_le : 10 ^ (k - 1) ≤ s
  lt_pow : s < 10 ^ k
  roundsTo : RoundsTo (s * 10 ^ (n - k)) m

/-- As few digits as any that are read as `m`, and as near to it as any so few. -/
structure Shortest (m : Magnitude) (n : Int) (k s : Nat) : Prop extends Reads m n k s where
  fewest : ∀ {n' k' s'}, Reads m n' k' s' → k ≤ k'
  nearest : ∀ {n' s'}, Reads m n' k s' →
    |m.value - s * 10 ^ (n - k)| ≤ |m.value - s' * 10 ^ (n' - k)|

/-! ## Powers of ten -/

theorem ten_pow_mul_zpow (j : Nat) (n : Int) : ((10 ^ j : ℕ) : ℚ) * 10 ^ (n - j) = 10 ^ n := by
  push_cast
  rw [← zpow_natCast, ← zpow_add₀ (by norm_num), add_sub_cancel]

theorem ten_pow_pred_mul_zpow (hk : 1 ≤ k) (n : Int) :
    ((10 ^ (k - 1) : ℕ) : ℚ) * 10 ^ (n - k) = 10 ^ (n - 1) := by
  rw [← ten_pow_mul_zpow (k - 1) (n - 1)]
  congr 2
  omega

theorem div_ten_mul_zpow (h : d % 10 = 0) (n : Int) :
    ((d / 10 : ℕ) : ℚ) * 10 ^ (n + 1) = d * 10 ^ n := by
  obtain ⟨d, rfl⟩ := Nat.dvd_of_mod_eq_zero h
  rw [Nat.mul_div_cancel_left d (by norm_num), zpow_add_one₀ (by norm_num)]
  push_cast
  ring

namespace Reads

theorem zpow_le (h : Reads m n k s) : (10 : ℚ) ^ (n - 1) ≤ s * 10 ^ (n - k) := by
  rw [← ten_pow_pred_mul_zpow h.one_le]
  gcongr
  exact h.pow_le

theorem lt_zpow (h : Reads m n k s) : (s : ℚ) * 10 ^ (n - k) < 10 ^ n := by
  rw [← ten_pow_mul_zpow k n]
  gcongr
  exact h.lt_pow

/-- Whatever `k` digits are read as `m`, so is a point of the grid on which numbers below the power
of ten above `m` have `k` digits, and it is no farther away. -/
theorem exists_on_grid (h : Reads m n k s) (hm : m.coefficient ≠ 0)
    (hlow : (10 : ℚ) ^ (top - 1) ≤ m.value) (hhigh : m.value < 10 ^ top) :
    ∃ d : Nat, RoundsTo (d * 10 ^ (top - k)) m ∧
      |m.value - d * 10 ^ (top - k)| ≤ |m.value - s * 10 ^ (n - k)| := by
  have hself := roundsTo_value hm
  obtain hlt | rfl | hgt := lt_trichotomy n top
  · -- the digits are below the power of ten below `m`
    have hle : (s : ℚ) * 10 ^ (n - k) ≤ 10 ^ (top - 1) :=
      h.lt_zpow.le.trans (zpow_le_zpow_right₀ (by norm_num) (by omega))
    refine ⟨10 ^ (k - 1), ?_⟩
    rw [ten_pow_pred_mul_zpow h.one_le, abs_of_nonneg (by linarith), abs_of_nonneg (by linarith)]
    exact ⟨h.roundsTo.between hm hself hle hlow, by linarith⟩
  · exact ⟨s, h.roundsTo, le_rfl⟩
  · -- the digits are above the power of ten above `m`
    have hle : (10 : ℚ) ^ top ≤ s * 10 ^ (n - k) :=
      (zpow_le_zpow_right₀ (by norm_num) (by omega)).trans h.zpow_le
    refine ⟨10 ^ k, ?_⟩
    rw [ten_pow_mul_zpow, abs_of_nonpos (by linarith), abs_of_nonpos (by linarith)]
    exact ⟨hself.between hm h.roundsTo hhigh.le hle, by linarith⟩

end Reads

/-! ## Digits and values -/

/-- One digit is read as what a power of ten is read as. -/
theorem reads_of_ten_zpow {t : Int} (h : RoundsTo (10 ^ t) m) : Reads m (t + 1) 1 1 :=
  ⟨le_rfl, by norm_num, by norm_num, by simpa using h⟩

namespace Shortest

/-- Where a value has no more digits than the shortest that are read as it, these are its own. -/
theorem value_eq (h : Shortest m n k s) {n' : Int} {k' s' : Nat} (hreads : Reads m n' k' s')
    (hle : k' ≤ k) (hvalue : (s' : ℚ) * 10 ^ (n' - k') = m.value) :
    (s : ℚ) * 10 ^ (n - k) = m.value := by
  obtain rfl : k = k' := le_antisymm (h.fewest hreads) hle
  have hnearest := h.nearest hreads
  rw [hvalue, sub_self, abs_zero, abs_nonpos_iff] at hnearest
  linarith

/-- The last of the shortest digits is not zero: else there were as good ones without it. -/
theorem not_dvd (h : Shortest m n k s) : ¬ 10 ∣ s := by
  intro hdvd
  have hone := h.one_le
  obtain ⟨j, rfl⟩ := Nat.exists_eq_add_of_le' hone
  have hpow := h.pow_le
  have hlt := h.lt_pow
  rw [pow_succ] at hlt
  cases j with
  | zero => simp at hpow; omega
  | succ j =>
    rw [Nat.add_sub_cancel, pow_succ] at hpow
    have hshorter : Reads m n (j + 1) (s / 10) := by
      refine ⟨by omega, by simp; omega, by omega, ?_⟩
      have hroundsTo := h.roundsTo
      rw [← div_ten_mul_zpow (Nat.mod_eq_zero_of_dvd hdvd)] at hroundsTo
      rwa [show n - (j + 1 : ℕ) = n - (j + 1 + 1 : ℕ) + 1 by push_cast; ring]
    have := h.fewest hshorter
    omega

/-- The power of ten of the first digit tells on which side of a power of ten the value is, if that
one is read as a double not far from it. -/
theorem lt_iff (h : Shortest m n k s) {t : Int} {p : Magnitude} (hread : RoundsTo (10 ^ t) p)
    (hclose : 19 * 10 ^ t < 20 * p.value) : m.value < p.value ↔ n ≤ t := by
  have hstep : (10 : ℚ) ^ t = 10 * 10 ^ (t - 1) := by
    rw [zpow_sub_one₀ (by norm_num)]
    ring
  constructor
  · intro hlt
    by_contra hgt
    have hpow : (10 : ℚ) ^ t ≤ s * 10 ^ (n - k) :=
      (zpow_le_zpow_right₀ (by norm_num) (by omega)).trans h.zpow_le
    exact hlt.not_ge (hread.value_le h.roundsTo hpow)
  · intro hle
    have hpow : (s : ℚ) * 10 ^ (n - k) < 10 ^ t :=
      h.lt_zpow.trans_le (zpow_le_zpow_right₀ (by norm_num) hle)
    refine (h.roundsTo.value_le hread hpow.le).lt_of_ne fun hvalue => ?_
    -- then the power of ten itself has one digit that is read as `m`, and is nearer to it
    obtain rfl := eq_of_value_eq hvalue
    have hone := reads_of_ten_zpow hread
    obtain rfl : k = 1 := le_antisymm (h.fewest hone) h.one_le
    have hnearest := h.nearest hone
    have hdigit : (s : ℚ) * 10 ^ (n - 1) ≤ 9 * 10 ^ (t - 1) := by
      have hs : (s : ℚ) ≤ 9 := by exact_mod_cast Nat.le_of_lt_succ h.lt_pow
      have hpow : (10 : ℚ) ^ (n - 1) ≤ 10 ^ (t - 1) :=
        zpow_le_zpow_right₀ (by norm_num) (by omega)
      gcongr
    have hup := (abs_sub_le_iff_of_lt (by simpa using hpow)).mp hnearest
    simp at hup
    linarith

end Shortest

namespace Decimal

/-! ## The search -/

/-- The search ends on the first grid with a point that is read back, if there is one in its
range. -/
theorem exists_search_eq (last : Nat) (hlast : onGrid? tie c e (top - last) ≠ none)
    (left count : Nat) (hle : count ≤ last) (hlt : last < count + left) :
    ∃ i d, count ≤ i ∧ search tie c e top left count = ⟨d, top - i⟩ ∧
      onGrid? tie c e (top - i) = some d ∧
      ∀ j, count ≤ j → j < i → onGrid? tie c e (top - j) = none := by
  induction left generalizing count with
  | zero => omega
  | succ left ih =>
    cases hgrid : onGrid? tie c e (top - count) with
    | some d => exact ⟨count, d, le_rfl, by simp [search, hgrid], hgrid, by omega⟩
    | none =>
      have hne : count ≠ last := by
        rintro rfl
        exact hlast hgrid
      obtain ⟨i, d, hi, hsearch, hsome, hbefore⟩ := ih (count + 1) (by omega) (by omega)
      refine ⟨i, d, by omega, by simpa [search, hgrid] using hsearch, hsome, fun j hj hji => ?_⟩
      obtain rfl | hj := Nat.eq_or_lt_of_le hj
      · exact hgrid
      · exact hbefore j hj hji

/-- With seventeen digits the points of the grid are closer to each other than the ends of the
interval. -/
theorem spacing_lt (hlow : (10 : ℚ) ^ (top - 1) ≤ m.value) :
    (10 : ℚ) ^ (top - 17) < m.high - m.low := by
  have hulp := m.ulp_pos
  have hbit : (leadingBit : ℚ) = 4503599627370496 := by norm_num [leadingBit]
  have hspacing : 10 ^ 16 * (10 : ℚ) ^ (top - 17) = 10 ^ (top - 1) := by
    rw [← ten_pow_mul_zpow 16 (top - 1), sub_sub]
    norm_num
  unfold high low below
  split
  case isTrue narrow =>
    have hvalue : m.value = leadingBit * m.ulp := by
      rw [value, (narrowBelow_iff.mp narrow).1, ulp]
    rw [hbit] at hvalue
    linarith
  case isFalse wide =>
    have hvalue : m.value ≤ 2 * leadingBit * m.ulp := by
      have hlt : (m.coefficient : ℚ) ≤ 2 * leadingBit := by exact_mod_cast m.lt.le
      exact mul_le_mul_of_nonneg_right hlt hulp.le
    rw [hbit] at hvalue
    linarith

theorem seventeen_digits (tie : Tie) (hm : m.coefficient ≠ 0)
    (hlow : (10 : ℚ) ^ (top - 1) ≤ m.value) :
    onGrid? tie m.coefficient m.exponent (top - 17) ≠ none := by
  intro hnone
  have hspacing := spacing_lt hlow
  have hdown : (floorAt m.coefficient m.exponent (top - 17) : ℚ) * 10 ^ (top - 17) ≤ m.low :=
    not_lt.mp fun hlt => onGrid?_none hm hnone _ <|
      .of_lt hm hlt ((floorAt_le m _).trans_lt m.value_lt_high)
  have hup : m.high ≤ (floorAt m.coefficient m.exponent (top - 17) + 1 : ℕ) * 10 ^ (top - 17) :=
    not_lt.mp fun hlt => onGrid?_none hm hnone _ <|
      .of_lt hm (m.low_lt_value.trans (lt_floorAt_succ m _)) hlt
  push_cast at hup
  linarith

/-! ## What is found -/

theorem strip_of_mod_ne {x : Decimal} (h : x.digits % 10 ≠ 0) (steps : Nat) :
    strip steps x = x := by
  cases steps with
  | zero => rfl
  | succ steps => simp [strip, h]

theorem onGrid?_bounds (hlow : (10 : ℚ) ^ (top - 1) ≤ m.value) (hhigh : m.value < 10 ^ top)
    (hi : 1 ≤ i) (hsome : onGrid? tie m.coefficient m.exponent (top - i) = some d) :
    10 ^ (i - 1) ≤ d ∧ d ≤ 10 ^ i := by
  have hdown : 10 ^ (i - 1) ≤ floorAt m.coefficient m.exponent (top - i) := by
    rwa [le_floorAt_iff, ten_pow_pred_mul_zpow hi]
  have hup : floorAt m.coefficient m.exponent (top - i) < 10 ^ i := by
    rwa [← not_le, le_floorAt_iff, ten_pow_mul_zpow, not_le]
  obtain rfl | rfl := around_of_onGrid? hsome
  · exact ⟨hdown, hup.le⟩
  · exact ⟨hdown.trans (Nat.le_succ _), hup⟩

/-- What is found on the first grid with a point that is read back has one digit for each step to
that grid, and the last one is not zero: else a grid before would have had the same point. -/
theorem exists_strip_eq (hm : m.coefficient ≠ 0) (hi : 1 ≤ i)
    (hbounds : 10 ^ (i - 1) ≤ d ∧ d ≤ 10 ^ i) (hread : RoundsTo (d * 10 ^ (top - i)) m)
    (hbefore : ∀ j, 1 ≤ j → j < i → onGrid? tie m.coefficient m.exponent (top - j) = none) :
    ∃ n s, strip 18 ⟨d, top - i⟩ = ⟨s, n - i⟩ ∧ 10 ^ (i - 1) ≤ s ∧ s < 10 ^ i ∧
      (s : ℚ) * 10 ^ (n - i) = d * 10 ^ (top - i) := by
  by_cases hten : i = 1 ∧ d = 10
  · obtain ⟨rfl, rfl⟩ := hten
    refine ⟨top + 1, 1, ?_, by norm_num, by norm_num, ?_⟩
    · simp [strip]
    · have hdigit := div_ten_mul_zpow (d := 10) rfl (top - 1)
      rw [sub_add_cancel] at hdigit
      simpa using hdigit
  · obtain ⟨j, rfl⟩ := Nat.exists_eq_add_of_le' hi
    have hlast : d % 10 ≠ 0 := by
      intro hlast
      have hj : 1 ≤ j := by
        by_contra hj
        obtain rfl : j = 0 := by omega
        simp at hbounds hten
        omega
      refine onGrid?_none hm (hbefore j hj (by omega)) (d / 10) ?_
      rw [show top - j = top - (j + 1 : ℕ) + 1 by push_cast; ring, div_ten_mul_zpow hlast]
      exact hread
    refine ⟨top, d, strip_of_mod_ne hlast 18, hbounds.1, hbounds.2.lt_of_ne ?_, rfl⟩
    rintro rfl
    exact hlast (by rw [pow_succ, Nat.mul_mod_left])

/-- The digits that are written are the shortest ones. -/
theorem shortest_spec (tie : Tie) (hm : m.coefficient ≠ 0) (hmost : m.exponent ≤ mostExponent) :
    ∃ (n : Int) (k s : Nat),
      shortest tie m.coefficient m.exponent = ⟨s, n - k⟩ ∧ Shortest m n k s := by
  obtain ⟨hlow, hhigh⟩ := scale_bounds hm hmost
  obtain ⟨i, d, hi, hsearch, hsome, hbefore⟩ :=
    exists_search_eq 17 (seventeen_digits tie hm hlow) 17 1 (by omega) (by omega)
  obtain ⟨hread, hnearest⟩ := onGrid?_some hm hsome
  obtain ⟨n, s, hstrip, hpow, hlt, hvalue⟩ :=
    exists_strip_eq hm hi (onGrid?_bounds hlow hhigh hi hsome) hread hbefore
  refine ⟨n, i, s, by rw [shortest, hsearch, hstrip], ⟨hi, hpow, hlt, by rwa [hvalue]⟩, ?_, ?_⟩
  · intro n' k' s' h
    by_contra hfewer
    obtain ⟨d', hread', -⟩ := h.exists_on_grid hm hlow hhigh
    exact onGrid?_none hm (hbefore k' h.one_le (by omega)) d' hread'
  · intro n' s' h
    obtain ⟨d', hread', hle⟩ := h.exists_on_grid hm hlow hhigh
    rw [hvalue]
    exact (hnearest d' hread').trans hle

end Decimal

end LoxLang
