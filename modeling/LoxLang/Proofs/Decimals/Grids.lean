import LoxLang.Proofs.Decimals.Magnitudes
import Mathlib.Algebra.Order.Floor.Semifield
import Mathlib.Data.Rat.Floor
import Mathlib.Tactic.FieldSimp

/-!
# Decimal grids

The comparisons of the search are exact, and on each grid the search looks at the two points around
the value alone. No other point of the grid is read as the value unless one of the two is, and then
it is no nearer.

1. `Decimal.compareDyadic_eq`, `Decimal.le_floorAt_iff`: arithmetic of natural numbers as that of
   rational ones.
2. `Decimal.readsBack_iff`: the test of the search is reading.
3. `Decimal.onGrid?_some`, `Decimal.onGrid?_none`: what is found on one grid.
4. `Decimal.scale_bounds`: the grid to begin with.
-/

namespace LoxLang

open Binary64 Magnitude

namespace Decimal

variable {tie : Tie} {m : Magnitude} {c d d' n : Nat} {e k q : Int}

/-! ## Comparisons -/

theorem zpow_eq_div {b : ℚ} (hb : b ≠ 0) (k : Int) : b ^ k = b ^ k.toNat / b ^ (-k).toNat := by
  rw [← zpow_natCast, ← zpow_natCast, ← zpow_sub₀ hb, Int.toNat_sub_toNat_neg]

theorem compareDyadic_eq (d : Nat) (k : Int) (n : Nat) (q : Int) :
    compareDyadic d k n q = compare ((d : ℚ) * 10 ^ k) (n * 2 ^ q) := by
  have hpos : (0 : ℚ) < 10 ^ (-k).toNat * 2 ^ (-q).toNat := by
    positivity
  have hmono : StrictMono fun x : Nat => (x : ℚ) / (10 ^ (-k).toNat * 2 ^ (-q).toNat) :=
    fun a b hlt => by
      dsimp only
      gcongr
  rw [compareDyadic, ← cmp_eq_compare, ← hmono.cmp_map_eq, cmp_eq_compare,
    zpow_eq_div (by norm_num : (10 : ℚ) ≠ 0), zpow_eq_div (by norm_num : (2 : ℚ) ≠ 0)]
  congr 1
  · push_cast [Nat.pow_eq]
    field_simp
  · push_cast [Nat.pow_eq]
    field_simp

theorem compareDyadic_gt_iff : compareDyadic d k n q = .gt ↔ (n : ℚ) * 2 ^ q < d * 10 ^ k := by
  rw [compareDyadic_eq, compare_gt_iff_gt]

theorem floorAt_eq : floorAt c e k = ⌊(c : ℚ) * 2 ^ e / 10 ^ k⌋₊ := by
  rw [floorAt, ← Nat.floor_div_eq_div (K := ℚ), zpow_eq_div (by norm_num : (10 : ℚ) ≠ 0),
    zpow_eq_div (by norm_num : (2 : ℚ) ≠ 0)]
  congr 1
  push_cast [Nat.pow_eq]
  field_simp

theorem le_floorAt_iff : d ≤ floorAt m.coefficient m.exponent k ↔ (d : ℚ) * 10 ^ k ≤ m.value := by
  have hpow : (0 : ℚ) < 10 ^ k := by
    positivity
  rw [floorAt_eq, Nat.le_floor_iff (by positivity), le_div_iff₀ hpow, value]

theorem floorAt_le (m : Magnitude) (k : Int) :
    (floorAt m.coefficient m.exponent k : ℚ) * 10 ^ k ≤ m.value :=
  le_floorAt_iff.mp le_rfl

theorem lt_floorAt_succ (m : Magnitude) (k : Int) :
    m.value < (floorAt m.coefficient m.exponent k + 1 : ℕ) * 10 ^ k :=
  not_le.mp (mt le_floorAt_iff.mpr (Nat.lt_irrefl _))

/-- One of the two points of a grid that have the value of `m` between them. -/
def Around (m : Magnitude) (k : Int) (d : Nat) : Prop :=
  d = floorAt m.coefficient m.exponent k ∨ d = floorAt m.coefficient m.exponent k + 1

/-! ## The test -/

theorem zpow_sub_two (e : Int) : (2 : ℚ) ^ (e - 2) = 2 ^ e / 4 := by
  rw [zpow_sub₀ two_ne_zero]
  norm_num

/-- The lower end, in quarters of a unit. -/
theorem low_eq (h : m.coefficient ≠ 0) :
    ((4 * m.coefficient - (if narrowBelow m.coefficient m.exponent then 1 else 2) : Nat) : ℚ) *
      2 ^ (m.exponent - 2) = m.low := by
  rw [zpow_sub_two, low, below, value, ulp]
  split
  all_goals
    rw [Nat.cast_sub (by omega)]
    push_cast
    ring

/-- The upper end, in quarters of a unit. -/
theorem high_eq (m : Magnitude) :
    ((4 * m.coefficient + 2 : Nat) : ℚ) * 2 ^ (m.exponent - 2) = m.high := by
  rw [zpow_sub_two, high, value, ulp]
  push_cast
  ring

theorem readsBack_iff (h : m.coefficient ≠ 0) :
    readsBack m.coefficient m.exponent d k ↔ RoundsTo (d * 10 ^ k) m := by
  have hends : m.low < m.high := m.low_lt_value.trans m.value_lt_high
  simp only [readsBack]
  rw [compareDyadic_eq, compareDyadic_eq, low_eq h, high_eq, roundsTo_iff h]
  generalize (d : ℚ) * 10 ^ k = q
  obtain hlow | rfl | hlow := lt_trichotomy q m.low
  · simp [compare_lt_iff_lt.mpr hlow, compare_lt_iff_lt.mpr (hlow.trans hends), hlow.not_ge]
  · simp [hends.le, Nat.dvd_iff_mod_eq_zero]
  · rw [compare_gt_iff_gt.mpr hlow]
    obtain hhigh | rfl | hhigh := lt_trichotomy q m.high
    · simp [compare_lt_iff_lt.mpr hhigh, hlow.le, hhigh.le, hlow.ne', hhigh.ne]
    · simp [hends.le, Nat.dvd_iff_mod_eq_zero]
    · simp [compare_gt_iff_gt.mpr hhigh, hhigh.not_ge]

/-! ## Two points of a grid -/

/-- Of two neighbours on a grid the one is taken that lies on the same side of their middle. -/
theorem nearer_eq (tie : Tie) (m : Magnitude) (d : Nat) (k : Int) :
    (nearer tie m.coefficient m.exponent d k = d ∧
      2 * m.value ≤ d * 10 ^ k + (d + 1 : ℕ) * 10 ^ k) ∨
    (nearer tie m.coefficient m.exponent d k = d + 1 ∧
      d * 10 ^ k + (d + 1 : ℕ) * 10 ^ k ≤ 2 * m.value) := by
  have hmiddle : (d : ℚ) * 10 ^ k + (d + 1 : ℕ) * 10 ^ k = (2 * d + 1 : ℕ) * 10 ^ k := by
    push_cast
    ring
  have hvalue : 2 * m.value = (2 * m.coefficient : ℕ) * 2 ^ m.exponent := by
    rw [value]
    push_cast
    ring
  rw [hmiddle, hvalue]
  unfold nearer
  rw [compareDyadic_eq]
  split
  case h_1 hless => exact .inr ⟨rfl, (compare_lt_iff_lt.mp hless).le⟩
  case h_2 hgreater => exact .inl ⟨rfl, (compare_gt_iff_gt.mp hgreater).le⟩
  case h_3 hequal =>
    have heq := compare_eq_iff_eq.mp hequal
    split
    · exact .inr ⟨rfl, heq.le⟩
    · split
      · exact .inl ⟨rfl, heq.ge⟩
      · exact .inr ⟨rfl, heq.le⟩

theorem nearer_nearest (tie : Tie) (m : Magnitude) (d : Nat) (k : Int) :
    |m.value - nearer tie m.coefficient m.exponent d k * 10 ^ k| ≤ |m.value - d * 10 ^ k| ∧
    |m.value - nearer tie m.coefficient m.exponent d k * 10 ^ k| ≤
      |m.value - (d + 1 : ℕ) * 10 ^ k| := by
  have hnext : (d : ℚ) * 10 ^ k < (d + 1 : ℕ) * 10 ^ k := by
    gcongr
    exact Nat.lt_succ_self d
  obtain ⟨heq, hside⟩ | ⟨heq, hside⟩ := nearer_eq tie m d k
  · rw [heq]
    exact ⟨le_rfl, (abs_sub_le_iff_of_lt hnext).mpr hside⟩
  · rw [heq]
    exact ⟨(abs_sub_le_iff_of_gt hnext).mpr (by linarith), le_rfl⟩

/-- Whatever point of a grid is read as `m`, so is one of the two around the value of `m`, which
is no farther away. -/
theorem exists_around (h : m.coefficient ≠ 0) (hread : RoundsTo (d * 10 ^ k) m) :
    ∃ x, Around m k x ∧ RoundsTo (x * 10 ^ k) m ∧
      |m.value - x * 10 ^ k| ≤ |m.value - d * 10 ^ k| := by
  have hself := roundsTo_value h
  have hdown := floorAt_le m k
  have hup := lt_floorAt_succ m k
  by_cases hd : d ≤ floorAt m.coefficient m.exponent k
  · have hle : (d : ℚ) * 10 ^ k ≤ floorAt m.coefficient m.exponent k * 10 ^ k := by
      gcongr
    refine ⟨_, .inl rfl, hread.between h hself hle hdown, ?_⟩
    rw [abs_of_nonneg (by linarith), abs_of_nonneg (by linarith)]
    linarith
  · have hle : ((floorAt m.coefficient m.exponent k + 1 : ℕ) : ℚ) * 10 ^ k ≤ d * 10 ^ k := by
      gcongr
      omega
    refine ⟨_, .inr rfl, hself.between h hread hup.le hle, ?_⟩
    rw [abs_of_nonpos (by linarith), abs_of_nonpos (by linarith)]
    linarith

theorem onGrid?_none (h : m.coefficient ≠ 0)
    (hnone : onGrid? tie m.coefficient m.exponent k = none) (d : Nat) :
    ¬ RoundsTo (d * 10 ^ k) m := by
  intro hread
  obtain ⟨x, hx, hxread, -⟩ := exists_around h hread
  rw [← readsBack_iff h] at hxread
  grind [onGrid?, Around]

/-- What is found on a grid is read as `m`, and no other point of the grid that is read so is
nearer. -/
theorem onGrid?_some (h : m.coefficient ≠ 0)
    (hsome : onGrid? tie m.coefficient m.exponent k = some d) :
    RoundsTo (d * 10 ^ k) m ∧
      ∀ d' : Nat, RoundsTo (d' * 10 ^ k) m → |m.value - d * 10 ^ k| ≤ |m.value - d' * 10 ^ k| := by
  suffices hpoints : RoundsTo (d * 10 ^ k) m ∧
      ∀ x, Around m k x → RoundsTo (x * 10 ^ k) m →
        |m.value - d * 10 ^ k| ≤ |m.value - x * 10 ^ k| by
    refine ⟨hpoints.1, fun d' hread => ?_⟩
    obtain ⟨x, hx, hxread, hle⟩ := exists_around h hread
    exact (hpoints.2 x hx hxread).trans hle
  simp only [← readsBack_iff h]
  simp only [onGrid?] at hsome
  split at hsome
  case h_1 hdown hup =>
    obtain rfl := Option.some.inj hsome
    have hnearest := nearer_nearest tie m (floorAt m.coefficient m.exponent k) k
    constructor
    · obtain ⟨heq, -⟩ | ⟨heq, -⟩ := nearer_eq tie m (floorAt m.coefficient m.exponent k) k
      · rwa [heq]
      · rwa [heq]
    · rintro x (rfl | rfl) -
      · exact hnearest.1
      · exact hnearest.2
  case h_2 hdown hup =>
    obtain rfl := Option.some.inj hsome
    refine ⟨hdown, ?_⟩
    rintro x (rfl | rfl) hread
    · exact le_rfl
    · exact absurd hread (by simp [hup])
  case h_3 hdown hup =>
    obtain rfl := Option.some.inj hsome
    refine ⟨hup, ?_⟩
    rintro x (rfl | rfl) hread
    · exact absurd hread (by simp [hdown])
    · exact le_rfl
  case h_4 => exact nomatch hsome

theorem around_of_onGrid? (hsome : onGrid? tie m.coefficient m.exponent k = some d) :
    Around m k d := by
  have hnearer := nearer_eq tie m (floorAt m.coefficient m.exponent k) k
  grind [onGrid?, Around]

/-! ## The first grid -/

/-- The guess by the binary logarithm `l` is not too high, and at most two too low. -/
def boundsGuess (l : Int) : Bool :=
  compareDyadic 1 (l * 30103 / 100000 - 1) 1 l != .gt &&
    compareDyadic 1 (l * 30103 / 100000 + 2) 1 (l + 1) != .lt

/-- All binary logarithms of doubles are tried. -/
theorem all_boundsGuess : (List.range 2098).all fun i => boundsGuess (i - 1074) := by
  decide +kernel

theorem guess_bounds {l : Int} (hleast : -1074 ≤ l) (hmost : l ≤ 1023) :
    (10 : ℚ) ^ (l * 30103 / 100000 - 1) ≤ 2 ^ l ∧
      (2 : ℚ) ^ (l + 1) ≤ 10 ^ (l * 30103 / 100000 + 2) := by
  have hall := List.all_eq_true.mp all_boundsGuess (l + 1074).toNat (by grind)
  rw [show ((l + 1074).toNat : Int) - 1074 = l by omega] at hall
  simp only [boundsGuess, compareDyadic_eq, Bool.and_eq_true, bne_iff_ne, ne_eq,
    compare_gt_iff_gt, compare_lt_iff_lt] at hall
  simpa using hall

theorem log2_bounds (h : m.coefficient ≠ 0) :
    (2 : ℚ) ^ ((m.coefficient.log2 : Int) + m.exponent) ≤ m.value ∧
      m.value < 2 ^ ((m.coefficient.log2 : Int) + m.exponent + 1) := by
  have hdown : ((2 ^ m.coefficient.log2 : ℕ) : ℚ) ≤ m.coefficient := by
    exact_mod_cast Nat.log2_self_le h
  have hup : (m.coefficient : ℚ) < (2 ^ (m.coefficient.log2 + 1) : ℕ) := by
    exact_mod_cast Nat.lt_log2_self
  rw [add_right_comm, zpow_add₀ two_ne_zero, zpow_add₀ two_ne_zero, value]
  push_cast at hdown hup
  constructor
  · rw [zpow_natCast]
    gcongr
  · rw [← Nat.cast_succ, zpow_natCast]
    gcongr

/-- The first grid spans from zero to the least power of ten above the value. -/
theorem scale_bounds (h : m.coefficient ≠ 0) (hmost : m.exponent ≤ mostExponent) :
    (10 : ℚ) ^ (scale m.coefficient m.exponent - 1) ≤ m.value ∧
      m.value < 10 ^ scale m.coefficient m.exponent := by
  obtain ⟨hdown, hup⟩ := log2_bounds h
  have hlog : m.coefficient.log2 < 53 := (Nat.log2_lt h).mpr m.lt
  have hleast : -1074 ≤ m.exponent := m.least_le
  unfold mostExponent at hmost
  obtain ⟨hlow, hhigh⟩ := guess_bounds (l := m.coefficient.log2 + m.exponent) (by omega) (by omega)
  unfold scale
  simp only [compareDyadic_gt_iff, Nat.cast_one, one_mul]
  rw [← value]
  split
  case isTrue hless => exact ⟨hlow.trans hdown, hless⟩
  case isFalse hmore =>
    split
    case isTrue hless => exact ⟨by simpa using hmore, hless⟩
    case isFalse hmore =>
      refine ⟨?_, hup.trans_le hhigh⟩
      rw [add_sub_assoc]
      exact not_lt.mp hmore

end Decimal

end LoxLang
