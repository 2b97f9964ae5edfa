import LoxLang.Number.Shortest
import Mathlib.Algebra.Order.Field.Power
import Mathlib.Tactic.Linarith
import Mathlib.Tactic.LinearCombination
import Mathlib.Tactic.Positivity
import Mathlib.Tactic.Ring

/-!
# Magnitudes

The doubles from zero on as rational numbers, and the one that a rational number is read as: the
nearest, and of two equally near ones the one with an even coefficient.

1. `Magnitude.value_add_ulp_le`, `Magnitude.value_add_below_le`: the gaps between neighbours.
2. `Magnitude.roundsTo_iff`: what is read as one double is an interval.
3. `Magnitude.RoundsTo.unique`, `Magnitude.RoundsTo.value_le`: reading is a function, and rises.
4. `Binary64.exists_magnitude_of_read`: what bits stand for.
-/

namespace LoxLang

open Binary64

namespace Binary64

theorem leadingBit_pos : 0 < leadingBit := by
  decide

/-- The exponent of the largest doubles. -/
def mostExponent : Int := 971

end Binary64

/-- `coefficient · 2 ^ exponent`, with as small an exponent as the coefficient has room for. There
is no largest exponent: what overflows is nearest to a magnitude that no bits stand for. -/
structure Magnitude where
  coefficient : Nat
  exponent : Int
  lt : coefficient < 2 * leadingBit
  least_le : leastExponent ≤ exponent
  normal : leadingBit ≤ coefficient ∨ exponent = leastExponent

namespace Magnitude

variable {m m' : Magnitude} {q r : ℚ}

def value (m : Magnitude) : ℚ :=
  m.coefficient * 2 ^ m.exponent

/-- One unit in the last place: the gap to the neighbour above. -/
def ulp (m : Magnitude) : ℚ :=
  2 ^ m.exponent

/-- The gap to the neighbour below. -/
def below (m : Magnitude) : ℚ :=
  if Decimal.narrowBelow m.coefficient m.exponent then m.ulp / 2 else m.ulp

/-- `q` is read as `m`. -/
structure RoundsTo (q : ℚ) (m : Magnitude) : Prop where
  nearest : ∀ m' : Magnitude, |q - m.value| ≤ |q - m'.value|
  even : ∀ m' : Magnitude, m'.value ≠ m.value → |q - m.value| = |q - m'.value| →
    2 ∣ m.coefficient

/-! ## Neighbours -/

theorem ulp_pos (m : Magnitude) : 0 < m.ulp :=
  zpow_pos two_pos _

theorem below_pos (m : Magnitude) : 0 < m.below := by
  have hulp := m.ulp_pos
  unfold below
  split <;> linarith

theorem below_le (m : Magnitude) : m.below ≤ m.ulp := by
  have hulp := m.ulp_pos
  unfold below
  split <;> linarith

theorem narrowBelow_iff : Decimal.narrowBelow m.coefficient m.exponent ↔
    m.coefficient = leadingBit ∧ leastExponent < m.exponent := by
  simp [Decimal.narrowBelow]

theorem value_pos (h : m.coefficient ≠ 0) : 0 < m.value := by
  unfold value
  positivity

/-- A magnitude of no smaller exponent is a multiple of the unit. -/
theorem exists_value_eq_mul_ulp (h : m.exponent ≤ m'.exponent) :
    ∃ n : Nat, m'.value = n * m.ulp := by
  obtain ⟨j, hj⟩ := Int.le.dest h
  refine ⟨m'.coefficient * 2 ^ j, ?_⟩
  rw [value, ulp, ← hj, zpow_add₀ two_ne_zero, zpow_natCast]
  push_cast
  ring

/-- A magnitude of a smaller exponent is below all those with a leading bit. -/
theorem value_le_of_exponent_lt (h : m'.exponent < m.exponent) :
    m'.value ≤ leadingBit * m.ulp - m.ulp / 2 := by
  have hlt : (m'.coefficient : ℚ) ≤ 2 * leadingBit - 1 := by
    have hlt : ((m'.coefficient + 1 : ℕ) : ℚ) ≤ (2 * leadingBit : ℕ) := Nat.cast_le.mpr m'.lt
    push_cast at hlt
    linarith
  have hulp : m'.ulp ≤ m.ulp / 2 := by
    have hle : (2 : ℚ) ^ (m'.exponent + 1) ≤ 2 ^ m.exponent :=
      zpow_le_zpow_right₀ one_le_two h
    rw [zpow_add_one₀ two_ne_zero] at hle
    unfold ulp
    linarith
  have hbit : (0 : ℚ) ≤ 2 * leadingBit - 1 := (Nat.cast_nonneg _).trans hlt
  calc m'.value = m'.coefficient * m'.ulp := rfl
    _ ≤ (2 * leadingBit - 1) * (m.ulp / 2) := mul_le_mul hlt hulp m'.ulp_pos.le hbit
    _ = leadingBit * m.ulp - m.ulp / 2 := by ring

theorem leadingBit_le_of_exponent_lt (h : m'.exponent < m.exponent) :
    leadingBit ≤ m.coefficient :=
  m.normal.resolve_right (m'.least_le.trans_lt h).ne'

theorem value_lt_of_exponent_lt (h : m'.exponent < m.exponent) : m'.value < m.value := by
  have hulp := m.ulp_pos
  have hbit : (leadingBit : ℚ) * m.ulp ≤ m.value := by
    unfold value ulp
    gcongr
    exact leadingBit_le_of_exponent_lt h
  have hle := value_le_of_exponent_lt h
  linarith

/-- No magnitude is within a unit above another one. -/
theorem value_add_ulp_le (h : m.value < m'.value) : m.value + m.ulp ≤ m'.value := by
  have hulp := m.ulp_pos
  obtain hle | hlt := le_or_gt m.exponent m'.exponent
  · obtain ⟨n, hn⟩ := exists_value_eq_mul_ulp hle
    rw [hn] at h ⊢
    have hlt : m.coefficient + 1 ≤ n := by
      exact_mod_cast lt_of_mul_lt_mul_right h hulp.le
    calc m.value + m.ulp = (m.coefficient + 1 : ℕ) * m.ulp := by
          rw [value, ulp]
          push_cast
          ring
      _ ≤ n * m.ulp := by gcongr
  · exact absurd h (value_lt_of_exponent_lt hlt).not_gt

/-- No magnitude is within the gap below another one. -/
theorem value_add_below_le (h : m'.value < m.value) : m'.value + m.below ≤ m.value := by
  have hulp := m.ulp_pos
  obtain hle | hlt := le_or_gt m.exponent m'.exponent
  · obtain ⟨n, hn⟩ := exists_value_eq_mul_ulp hle
    rw [hn] at h ⊢
    have hlt : n + 1 ≤ m.coefficient := by
      exact_mod_cast lt_of_mul_lt_mul_right h hulp.le
    calc n * m.ulp + m.below ≤ n * m.ulp + m.ulp := by linarith [m.below_le]
      _ = (n + 1 : ℕ) * m.ulp := by
          push_cast
          ring
      _ ≤ m.coefficient * m.ulp := by gcongr
  · have hle := value_le_of_exponent_lt hlt
    have hbit := leadingBit_le_of_exponent_lt hlt
    unfold below
    split
    case isTrue narrow =>
      have hvalue : m.value = leadingBit * m.ulp := by
        rw [value, (narrowBelow_iff.mp narrow).1, ulp]
      linarith
    case isFalse wide =>
      have hne : m.coefficient ≠ leadingBit := fun heq =>
        wide (narrowBelow_iff.mpr ⟨heq, m'.least_le.trans_lt hlt⟩)
      have hlt : leadingBit + 1 ≤ m.coefficient := by omega
      have hvalue : ((leadingBit + 1 : ℕ) : ℚ) * m.ulp ≤ m.value := by
        unfold value ulp
        gcongr
      push_cast at hvalue
      linarith

theorem eq_of_value_eq (h : m.value = m'.value) : m = m' := by
  obtain hlt | heq | hgt := lt_trichotomy m.exponent m'.exponent
  · exact absurd h (value_lt_of_exponent_lt hlt).ne
  · have hcoefficient : (m.coefficient : ℚ) = m'.coefficient := by
      rw [value, value, heq] at h
      exact mul_right_cancel₀ (zpow_ne_zero _ two_ne_zero) h
    cases m
    cases m'
    simp_all
  · exact absurd h (value_lt_of_exponent_lt hgt).ne'

/-- Of two neighbours at most one has an even coefficient. -/
theorem exists_next (m : Magnitude) : ∃ next : Magnitude, next.value = m.value + m.ulp ∧
    (2 ∣ m.coefficient → ¬ 2 ∣ next.coefficient) := by
  have hlt := m.lt
  by_cases hroom : m.coefficient + 1 < 2 * leadingBit
  · refine ⟨⟨m.coefficient + 1, m.exponent, hroom, m.least_le, m.normal.imp_left (by omega)⟩,
      ?_, by dsimp only; omega⟩
    simp only [value, ulp]
    push_cast
    ring
  · have hbit := leadingBit_pos
    have hleast := m.least_le
    refine ⟨⟨leadingBit, m.exponent + 1, by omega, by omega, .inl le_rfl⟩, ?_, by omega⟩
    have hfull : (m.coefficient : ℚ) + 1 = 2 * leadingBit := by
      exact_mod_cast (by omega : m.coefficient + 1 = 2 * leadingBit)
    simp only [value, ulp, zpow_add_one₀ (two_ne_zero' ℚ)]
    linear_combination (-2 ^ m.exponent) * hfull

theorem exists_previous (h : m.coefficient ≠ 0) :
    ∃ previous : Magnitude, previous.value + m.below = m.value := by
  have hlt := m.lt
  have hleast := m.least_le
  unfold below
  split
  case isTrue narrow =>
    obtain ⟨hbit, hexponent⟩ := narrowBelow_iff.mp narrow
    refine ⟨⟨2 * leadingBit - 1, m.exponent - 1, by omega, by omega, .inl (by omega)⟩, ?_⟩
    simp only [value, ulp, zpow_sub_one₀ (two_ne_zero' ℚ), hbit]
    rw [Nat.cast_sub (by omega)]
    push_cast
    ring
  case isFalse wide =>
    have hnormal : leadingBit ≤ m.coefficient - 1 ∨ m.exponent = leastExponent := by
      rw [narrowBelow_iff] at wide
      have := m.normal
      omega
    refine ⟨⟨m.coefficient - 1, m.exponent, by omega, hleast, hnormal⟩, ?_⟩
    simp only [value, ulp]
    rw [Nat.cast_sub (by omega)]
    push_cast
    ring

/-! ## Reading -/

/-- Half way to the neighbour below. -/
def low (m : Magnitude) : ℚ :=
  m.value - m.below / 2

/-- Half way to the neighbour above. -/
def high (m : Magnitude) : ℚ :=
  m.value + m.ulp / 2

theorem low_lt_value (m : Magnitude) : m.low < m.value :=
  sub_lt_self _ (half_pos m.below_pos)

theorem value_lt_high (m : Magnitude) : m.value < m.high :=
  lt_add_of_pos_right _ (half_pos m.ulp_pos)

theorem abs_sub_le_iff_of_lt {a b : ℚ} (h : a < b) : |q - a| ≤ |q - b| ↔ 2 * q ≤ a + b := by
  rw [← sq_le_sq]
  constructor
  · intro hle
    nlinarith
  · intro hle
    nlinarith

theorem abs_sub_le_iff_of_gt {a b : ℚ} (h : b < a) : |q - a| ≤ |q - b| ↔ a + b ≤ 2 * q := by
  rw [← sq_le_sq]
  constructor
  · intro hle
    nlinarith
  · intro hle
    nlinarith

theorem abs_sub_eq_iff_of_ne {a b : ℚ} (h : a ≠ b) : |q - a| = |q - b| ↔ 2 * q = a + b := by
  rw [← sq_eq_sq_iff_abs_eq_abs]
  constructor
  · intro heq
    have hfactors : (b - a) * (2 * q - (a + b)) = 0 := by
      linear_combination heq
    have := (mul_eq_zero.mp hfactors).resolve_left (sub_ne_zero.mpr h.symm)
    linarith
  · intro heq
    linear_combination (b - a) * heq

/-- What is read as `m` lies between the two half ways, which belong to it if its coefficient is
even. -/
theorem roundsTo_iff (h : m.coefficient ≠ 0) :
    RoundsTo q m ↔ (m.low ≤ q ∧ q ≤ m.high) ∧ (q = m.low ∨ q = m.high → 2 ∣ m.coefficient) := by
  have hulp := m.ulp_pos
  have hbelow := m.below_pos
  constructor
  · intro hread
    obtain ⟨next, hnext, -⟩ := m.exists_next
    obtain ⟨previous, hprevious⟩ := exists_previous h
    have hup := (abs_sub_le_iff_of_lt (by linarith)).mp (hread.nearest next)
    have hdown := (abs_sub_le_iff_of_gt (by linarith)).mp (hread.nearest previous)
    refine ⟨⟨?_, ?_⟩, ?_⟩
    · unfold low
      linarith
    · unfold high
      linarith
    · rintro (hend | hend)
      · refine hread.even previous (by linarith) ((abs_sub_eq_iff_of_ne (by linarith)).mpr ?_)
        rw [hend, low]
        linarith
      · refine hread.even next (by linarith) ((abs_sub_eq_iff_of_ne (by linarith)).mpr ?_)
        rw [hend, high]
        linarith
  · rintro ⟨⟨hlow, hhigh⟩, heven⟩
    unfold low high at *
    constructor
    · intro m'
      obtain hlt | heq | hgt := lt_trichotomy m.value m'.value
      · have := value_add_ulp_le hlt
        exact (abs_sub_le_iff_of_lt hlt).mpr (by linarith)
      · rw [heq]
      · have := value_add_below_le hgt
        exact (abs_sub_le_iff_of_gt hgt).mpr (by linarith)
    · intro m' hne htie
      have hmiddle := (abs_sub_eq_iff_of_ne hne.symm).mp htie
      obtain hlt | hgt := lt_or_gt_of_ne hne
      · have := value_add_below_le hlt
        exact heven (.inl (by linarith))
      · have := value_add_ulp_le hgt
        exact heven (.inr (by linarith))

theorem RoundsTo.of_lt (h : m.coefficient ≠ 0) (hlow : m.low < q) (hhigh : q < m.high) :
    RoundsTo q m :=
  (roundsTo_iff h).mpr ⟨⟨hlow.le, hhigh.le⟩, fun hend => (hend.elim hlow.ne' hhigh.ne).elim⟩

/-- A double is read as itself. -/
theorem roundsTo_value (h : m.coefficient ≠ 0) : RoundsTo m.value m :=
  .of_lt h m.low_lt_value m.value_lt_high

/-- What lies between two numbers read as `m` is read as `m` too. -/
theorem RoundsTo.between {a b : ℚ} (h : m.coefficient ≠ 0) (ha : RoundsTo a m)
    (hb : RoundsTo b m) (hle : a ≤ q) (hge : q ≤ b) : RoundsTo q m := by
  rw [roundsTo_iff h] at ha hb ⊢
  refine ⟨⟨ha.1.1.trans hle, hge.trans hb.1.2⟩, ?_⟩
  rintro (hend | hend)
  · exact ha.2 (.inl (le_antisymm (hle.trans hend.le) ha.1.1))
  · exact hb.2 (.inr (le_antisymm hb.1.2 (hend.ge.trans hge)))

/-- A number is read as one double alone. -/
theorem RoundsTo.unique (h : RoundsTo q m) (h' : RoundsTo q m') : m = m' := by
  wlog hlt : m.value < m'.value generalizing m m'
  · obtain hgt | heq := lt_or_eq_of_le (not_lt.mp hlt)
    · exact (this h' h hgt).symm
    · exact eq_of_value_eq heq.symm
  -- `q` lies half way between two neighbours, and both would have to be even
  have htie : |q - m.value| = |q - m'.value| := le_antisymm (h.nearest m') (h'.nearest m)
  obtain ⟨next, hnext, hparity⟩ := m.exists_next
  have hmiddle := (abs_sub_eq_iff_of_ne hlt.ne).mp htie
  have hup := (abs_sub_le_iff_of_lt (by linarith [m.ulp_pos])).mp (h.nearest next)
  have hnext : next = m' := eq_of_value_eq (by linarith [value_add_ulp_le hlt])
  exact absurd (hnext ▸ h'.even m hlt.ne htie.symm) (hparity (h.even m' hlt.ne' htie))

/-- The larger number is read as the larger double. -/
theorem RoundsTo.value_le (h : RoundsTo q m) (h' : RoundsTo r m') (hle : q ≤ r) :
    m.value ≤ m'.value := by
  by_contra hgt
  have hgt : m'.value < m.value := not_le.mp hgt
  have hdown := (abs_sub_le_iff_of_gt hgt).mp (h.nearest m')
  have hup := (abs_sub_le_iff_of_lt hgt).mp (h'.nearest m)
  obtain rfl : q = r := by linarith
  exact hgt.ne (congrArg value (h'.unique h))

/-! ## Bits -/

/-- The double with a sign before a magnitude. -/
def signed (m : Magnitude) (negative : Bool) : Binary64 :=
  .finite negative m.coefficient m.exponent

theorem signed_inj {negative negative' : Bool} (h : m.signed negative = m'.signed negative') :
    negative = negative' ∧ m = m' := by
  obtain ⟨hsign, hcoefficient, hexponent⟩ := finite.inj h
  cases m
  cases m'
  simp_all

end Magnitude

namespace Binary64

variable {bits : UInt64} {negative : Bool} {c : Nat} {e : Int}

/-- What bits stand for is a magnitude with a sign, within the largest exponent. -/
theorem exists_magnitude_of_read (h : read bits = finite negative c e) :
    ∃ m : Magnitude, m.coefficient = c ∧ m.exponent = e ∧ m.exponent ≤ mostExponent := by
  have hfraction : bits.toNat % leadingBit < leadingBit := Nat.mod_lt _ leadingBit_pos
  have hfield : bits.toNat / leadingBit % Nat.pow 2 11 < 2048 := Nat.mod_lt _ (by decide)
  simp only [read] at h
  split at h
  · split at h <;> exact nomatch h
  · split at h
    · obtain ⟨-, rfl, rfl⟩ := finite.inj h
      have hmost : leastExponent ≤ mostExponent := by decide
      exact ⟨⟨_, leastExponent, by omega, le_rfl, .inr rfl⟩, rfl, rfl, hmost⟩
    · obtain ⟨-, rfl, rfl⟩ := finite.inj h
      refine ⟨⟨_, _, ?_, ?_, .inl (Nat.le_add_right _ _)⟩, rfl, rfl, ?_⟩
      · omega
      · omega
      · simp only [mostExponent, leastExponent]
        omega

/-- Only one bit pattern is a negative zero. -/
theorem eq_of_read_negative_zero (h : read bits = finite true 0 e) :
    bits = 0x8000000000000000 := by
  have hbit : leadingBit = 4503599627370496 := rfl
  have hlt := bits.toNat_lt
  simp only [read, hbit] at h
  split at h
  · split at h <;> exact nomatch h
  · split at h
    · next hfield =>
      obtain ⟨hsign, hfraction, -⟩ := finite.inj h
      have hsign : bits.toNat / 9223372036854775808 = 1 := by simpa using hsign
      have hfield : bits.toNat / 4503599627370496 % 2048 = 0 := hfield
      refine UInt64.toNat_inj.mp ?_
      rw [show (0x8000000000000000 : UInt64).toNat = 9223372036854775808 from rfl]
      omega
    · obtain ⟨-, hcoefficient, -⟩ := finite.inj h
      omega

end Binary64

end LoxLang
