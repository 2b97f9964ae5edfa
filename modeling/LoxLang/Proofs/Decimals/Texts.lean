import LoxLang.Value
import LoxLang.Proofs.Decimals.Integers

/-!
# The text of a number

Numbers are printed as JavaScript does: the shortest digits that are read back, without an exponent
from a millionth up to 10²¹. But an integral value in that range is printed with all its digits.
That is the same text only if no fewer digits are read back, as it is with all values below 2⁵³.

1. `JavaScript.IsText`: the text that `Number::toString` asks for.
2. `Shortest.positional_iff`: where it has no exponent.
3. `Value.text_number`: which text is printed, and when it is the one asked for.
-/

namespace LoxLang

open Binary64 Magnitude

variable {m : Magnitude} {k s N : Nat} {n : Int} {negative : Bool} {text : String}

/-! ## The text of the standard -/

namespace JavaScript

/-- A point after the first digit, if there are others. -/
def withPoint : List Char → List Char
  | [] => []
  | [d] => [d]
  | d :: more => d :: '.' :: more

/-- The digits with their point after `n` of them. -/
def layout (n : Int) (digits : List Char) : List Char :=
  if -5 ≤ n ∧ n ≤ 21 then
    if digits.length ≤ n then
      digits ++ List.replicate (n - digits.length).toNat '0'
    else if 0 < n then
      digits.take n.toNat ++ '.' :: digits.drop n.toNat
    else
      '0' :: '.' :: List.replicate (-n).toNat '0' ++ digits
  else
    withPoint digits ++ 'e' :: (if n < 0 then '-' else '+') :: Nat.toDigits 10 (n - 1).natAbs

def sign (negative : Bool) : List Char :=
  if negative then ['-'] else []

/-- What `Number::toString` allows as the text of a double: it has as few digits as are read back,
and they are as near to the value as any so few. -/
inductive IsText : Binary64 → String → Prop
  | notANumber : IsText .notANumber "NaN"
  | infinity : IsText (.infinite false) "Infinity"
  | negativeInfinity : IsText (.infinite true) "-Infinity"
  | zero {negative : Bool} {e : Int} : IsText (.finite negative 0 e) "0"
  | nonzero {negative : Bool} {m : Magnitude} {n : Int} {k s : Nat} (hm : m.coefficient ≠ 0)
      (h : Shortest m n k s) :
      IsText (m.signed negative)
        (String.ofList (sign negative ++ layout n (Nat.toDigits 10 s)))

theorem IsText.of_signed (h : IsText (m.signed negative) text) (hm : m.coefficient ≠ 0) :
    ∃ n k s, Shortest m n k s ∧
      text = String.ofList (sign negative ++ layout n (Nat.toDigits 10 s)) := by
  generalize hx : m.signed negative = x at h
  cases h with
  | notANumber => exact nomatch hx
  | infinity => exact nomatch hx
  | negativeInfinity => exact nomatch hx
  | zero => exact absurd (finite.inj hx).2.1 hm
  | nonzero hm' h =>
    obtain ⟨rfl, rfl⟩ := signed_inj hx
    exact ⟨_, _, _, h, rfl⟩

end JavaScript

/-! ## Digits -/

theorem Reads.length_toDigits (h : Reads m n k s) : (Nat.toDigits 10 s).length = k := by
  have hle := (Nat.length_toDigits_le_iff (by norm_num) h.one_le).mpr h.lt_pow
  refine le_antisymm hle ?_
  by_contra hlt
  obtain ⟨j, rfl⟩ := Nat.exists_eq_add_of_le' h.one_le
  have hpos : 0 < (Nat.toDigits 10 s).length := Nat.length_toDigits_pos
  have hpow := (Nat.length_toDigits_le_iff (b := 10) (k := j) (by norm_num) (by omega)).mp
    (by omega : (Nat.toDigits 10 s).length ≤ j)
  exact hpow.not_ge h.pow_le

theorem toDigits_mul_ten_pow (hs : s ≠ 0) (j : Nat) :
    Nat.toDigits 10 (s * 10 ^ j) = Nat.toDigits 10 s ++ List.replicate j '0' := by
  induction j with
  | zero => simp
  | succ j ih =>
    have happend := Nat.toDigits_append_toDigits (b := 10) (n := s * 10 ^ j) (d := 0) (by norm_num)
      (by positivity) (by norm_num)
    rw [pow_succ, ← mul_assoc, mul_comm _ 10, ← add_zero (10 * _), ← happend, ih,
      List.replicate_succ', List.append_assoc]
    rfl

theorem toDigits_inj {a b : Nat} : Nat.toDigits 10 a = Nat.toDigits 10 b ↔ a = b := by
  refine ⟨fun h => ?_, fun h => h ▸ rfl⟩
  have ha := Nat.ofDigitChars_ten_toDigits (n := a)
  rw [h, Nat.ofDigitChars_ten_toDigits] at ha
  exact ha.symm

theorem point_notMem_toDigits (a : Nat) : '.' ∉ Nat.toDigits 10 a := fun h =>
  absurd (Nat.isDigit_of_mem_toDigits (by norm_num) (by norm_num) h) (by decide)

/-! ## Where the exponent begins -/

/-- What a millionth is read as; it is not one exactly. -/
def millionth : Magnitude :=
  ⟨4722366482869645, -72, by decide, by decide, .inl (by decide)⟩

def sextillion : Magnitude :=
  ⟨7629394531250000, 17, by decide, by decide, .inl (by decide)⟩

theorem roundsTo_millionth : RoundsTo (10 ^ (-6 : Int)) millionth := by
  have hread : RoundsTo ((1 : ℕ) * 10 ^ (-6 : Int)) millionth :=
    (Decimal.readsBack_iff (by decide)).mp (by decide)
  simpa using hread

theorem value_sextillion : sextillion.value = 10 ^ (21 : Int) := by
  norm_num [value, sextillion]

/-- In terms of the value: positional from a millionth up to 10²¹. -/
theorem Shortest.positional_iff (h : Shortest m n k s) :
    -5 ≤ n ∧ n ≤ 21 ↔ millionth.value ≤ m.value ∧ m.value < 10 ^ (21 : Int) := by
  have hlow := h.lt_iff roundsTo_millionth (by norm_num [value, millionth])
  have hsextillion : RoundsTo (10 ^ (21 : Int)) sextillion :=
    value_sextillion ▸ roundsTo_value (by decide)
  have hhigh := h.lt_iff hsextillion (by norm_num [value_sextillion])
  rw [value_sextillion] at hhigh
  rw [hhigh, ← not_lt (a := m.value), hlow]
  omega

/-! ## The printed text -/

namespace NumberStyle

theorem leading_eq (h : Reads m n k s) : Decimal.leading ⟨s, n - k⟩ = n - 1 := by
  rw [Decimal.leading, Decimal.chars, h.length_toDigits]
  ring

theorem printed_positional_iff (h : Reads m n k s) :
    printed.positional (Decimal.leading ⟨s, n - k⟩) ↔ -5 ≤ n ∧ n ≤ 21 := by
  rw [leading_eq h]
  simp only [printed, Bool.and_eq_true, decide_eq_true_eq]
  omega

theorem positionally_eq_layout (h : Reads m n k s) (hn : -5 ≤ n ∧ n ≤ 21) :
    printed.positionally ⟨s, n - k⟩ = JavaScript.layout n (Nat.toDigits 10 s) := by
  have hlength := h.length_toDigits
  simp only [positionally, JavaScript.layout, Decimal.chars, hlength, if_pos hn]
  split
  case h_1 zeros hzeros =>
    have hzeros : n - k = zeros := hzeros
    rw [if_pos (by omega), hzeros]
    simp [printed]
  case h_2 e he =>
    have he : n - k = -(e + 1) := by
      rw [he]
      rfl
    rw [if_neg (show ¬ (k : Int) ≤ n by omega)]
    by_cases hpoint : 0 < n
    · rw [if_pos (show e + 1 < k by omega), if_pos hpoint, show k - (e + 1) = n.toNat by omega]
    · rw [if_neg (show ¬ e + 1 < k by omega), if_neg hpoint, show e + 1 - k = (-n).toNat by omega]

theorem withExponent_eq_layout (h : Reads m n k s) (hn : ¬ (-5 ≤ n ∧ n ≤ 21)) :
    withExponent ⟨s, n - k⟩ = JavaScript.layout n (Nat.toDigits 10 s) := by
  simp only [withExponent, JavaScript.layout, Decimal.chars, leading_eq h, if_neg hn]
  congr 2
  split
  case h_1 e he =>
    have he : n - 1 = e := he
    rw [if_neg (by omega), he]
    rfl
  case h_2 e he =>
    have hpower : (n - 1).natAbs = e + 1 := by
      rw [he]
      rfl
    rw [if_pos (by omega), hpower]

end NumberStyle

/-! ## Integral values -/

namespace Shortest

/-- An integral value below 10²¹ is positional. -/
theorem positional_of_whole (h : Shortest m n k s) (hm : m.coefficient ≠ 0) (hN : m.value = N)
    (hlt : N < 10 ^ 21) : -5 ≤ n ∧ n ≤ 21 := by
  rw [h.positional_iff, hN]
  have hpos := value_pos hm
  rw [hN] at hpos
  have hone : (1 : ℚ) ≤ N := by exact_mod_cast hpos
  have hmillionth : millionth.value ≤ 1 := by norm_num [value, millionth]
  exact ⟨hmillionth.trans hone, by exact_mod_cast hlt⟩

/-- Where the digits of an integral value are laid out without an exponent they are all of its
digits just if they have the same value. -/
theorem layout_eq_iff (h : Shortest m n k s) (hN : m.value = N) (hn : -5 ≤ n ∧ n ≤ 21) :
    JavaScript.layout n (Nat.toDigits 10 s) = Nat.toDigits 10 N ↔
      (s : ℚ) * 10 ^ (n - k) = m.value := by
  have hs : s ≠ 0 := by
    have := h.pow_le
    have := Nat.pow_pos (n := k - 1) (by norm_num : 0 < 10)
    omega
  rw [hN]
  obtain hle | hlt := le_or_gt (k : Int) n
  · obtain ⟨j, rfl⟩ := Int.le.dest hle
    rw [JavaScript.layout, if_pos hn, h.length_toDigits, if_pos hle, add_sub_cancel_left,
      Int.toNat_natCast, ← toDigits_mul_ten_pow hs, toDigits_inj, zpow_natCast]
    exact_mod_cast Iff.rfl
  · -- a point on the one side, a fraction on the other
    refine iff_of_false (fun heq => ?_) fun heq => (h.le_of_whole heq).not_gt hlt
    have hpoint : '.' ∈ JavaScript.layout n (Nat.toDigits 10 s) := by
      rw [JavaScript.layout, if_pos hn, h.length_toDigits, if_neg hlt.not_ge]
      split <;> simp
    exact point_notMem_toDigits N (heq ▸ hpoint)

end Shortest

namespace NumberStyle

theorem printed_magnitude_whole (hm : m.coefficient ≠ 0) (hmost : m.exponent ≤ mostExponent)
    (hN : m.value = N) (hlt : N < 10 ^ 21) :
    printed.magnitude m.coefficient m.exponent = Nat.toDigits 10 N := by
  obtain ⟨n, k, s, heq, h⟩ := Decimal.shortest_spec .up hm hmost
  have hn := h.positional_of_whole hm hN hlt
  have hwhole : whole? m.coefficient m.exponent = some N := whole?_iff.mpr hN
  simp only [magnitude, show printed.tie = .up from rfl, heq,
    (printed_positional_iff h.toReads).mpr hn, hwhole]
  simp [printed]

theorem printed_magnitude (hm : m.coefficient ≠ 0) (hmost : m.exponent ≤ mostExponent)
    (hwhole : ∀ N : Nat, m.value = N → 10 ^ 21 ≤ N) :
    ∃ n k s, Shortest m n k s ∧
      printed.magnitude m.coefficient m.exponent = JavaScript.layout n (Nat.toDigits 10 s) := by
  obtain ⟨n, k, s, heq, h⟩ := Decimal.shortest_spec .up hm hmost
  refine ⟨n, k, s, h, ?_⟩
  simp only [magnitude, show printed.tie = .up from rfl, heq]
  split
  case isTrue hpositional =>
    have hn := (printed_positional_iff h.toReads).mp hpositional
    cases hN : whole? m.coefficient m.exponent with
    | some N =>
      have hN := whole?_iff.mp hN
      have hlt := (h.positional_iff.mp hn).2
      rw [value, hN] at hlt
      exact absurd (hwhole N hN) (not_le.mpr (by exact_mod_cast hlt))
    | none => exact positionally_eq_layout h.toReads hn
  case isFalse hexponent =>
    rw [printed_positional_iff h.toReads] at hexponent
    exact withExponent_eq_layout h.toReads hexponent

end NumberStyle

open JavaScript

/-- All digits of an integral value are the text asked for just if no fewer are read back. -/
theorem isText_whole_iff (hm : m.coefficient ≠ 0) (hN : m.value = N) (hlt : N < 10 ^ 21) :
    IsText (m.signed negative) (String.ofList (sign negative ++ Nat.toDigits 10 N)) ↔
      m.ShortestExact := by
  constructor
  · intro htext
    obtain ⟨n, k, s, h, heq⟩ := htext.of_signed hm
    have heq := List.append_cancel_left (String.ofList_injective heq)
    exact ⟨n, k, s, h, (h.layout_eq_iff hN (h.positional_of_whole hm hN hlt)).mp heq.symm⟩
  · rintro ⟨n, k, s, h, hvalue⟩
    rw [← (h.layout_eq_iff hN (h.positional_of_whole hm hN hlt)).mpr hvalue]
    exact .nonzero hm h

namespace NumberStyle

theorem printed_zero (hm : m.coefficient = 0) : printed.write (m.signed false) = "0" := by
  rw [signed, hm]
  rfl

theorem printed_nonzero (hm : m.coefficient ≠ 0) : printed.write (m.signed negative) =
    String.ofList (sign negative ++ printed.magnitude m.coefficient m.exponent) := by
  rw [signed, write, if_neg hm, sign]

/-- An integral value below 10²¹ is printed with all its digits. -/
theorem printed_whole (hmost : m.exponent ≤ mostExponent)
    (hsign : m.coefficient = 0 → negative = false) (hN : m.value = N) (hlt : N < 10 ^ 21) :
    printed.write (m.signed negative) =
      String.ofList (sign negative ++ Nat.toDigits 10 N) := by
  by_cases hm : m.coefficient = 0
  · obtain rfl : N = 0 := by
      simpa [value, hm] using hN.symm
    rw [hsign hm, printed_zero hm]
    rfl
  · rw [printed_nonzero hm, printed_magnitude_whole hm hmost hN hlt]

/-- The text asked for is printed, if the value is not a large integer whose digits are lost. -/
theorem isText_printed_iff (hmost : m.exponent ≤ mostExponent)
    (hsign : m.coefficient = 0 → negative = false) :
    IsText (m.signed negative) (printed.write (m.signed negative)) ↔
      ∀ N : Nat, m.value = N → 2 ^ 53 ≤ N → N < 10 ^ 21 → m.ShortestExact := by
  by_cases hm : m.coefficient = 0
  · have hzero : IsText (m.signed negative) "0" := by
      rw [signed, hm]
      exact .zero
    rw [hsign hm, printed_zero hm, ← hsign hm]
    refine iff_of_true hzero fun N hN hlarge _ => ?_
    obtain rfl : N = 0 := by
      simpa [value, hm] using hN.symm
    exact absurd hlarge (by norm_num)
  by_cases hwhole : ∃ N : Nat, m.value = N ∧ N < 10 ^ 21
  · obtain ⟨N, hN, hlt⟩ := hwhole
    rw [printed_whole hmost hsign hN hlt, isText_whole_iff hm hN hlt]
    refine ⟨fun h _ _ _ _ => h, fun h => ?_⟩
    obtain hsmall | hlarge := lt_or_ge N (2 ^ 53)
    · exact shortestExact_of_lt hm hmost hN hsmall
    · exact h N hN hlarge hlt
  · have hlarge : ∀ N : Nat, m.value = N → 10 ^ 21 ≤ N := fun N hN =>
      not_lt.mp fun hlt => hwhole ⟨N, hN, hlt⟩
    obtain ⟨n, k, s, h, heq⟩ := printed_magnitude hm hmost hlarge
    rw [printed_nonzero hm, heq]
    exact iff_of_true (.nonzero hm h) fun N hN _ hlt => absurd hlt (hlarge N hN).not_gt

end NumberStyle

namespace Value

variable {σ : Type}

/-- Every number but a negative zero is printed as `Number::toString` asks, integral values from 2⁵³
up to 10²¹ apart. These are printed with all their digits, as are the smaller ones, and that is the
text asked for just if their shortest digits have their own value. -/
theorem text_number (x : Float) (hx : x.toBits ≠ 0x8000000000000000) :
    (IsText (ofFloat x) (number x : Value σ).text ↔
      ∀ (negative : Bool) (m : Magnitude) (N : Nat), ofFloat x = m.signed negative →
        m.value = N → 2 ^ 53 ≤ N → N < 10 ^ 21 → m.ShortestExact) ∧
    (∀ (negative : Bool) (m : Magnitude) (N : Nat), ofFloat x = m.signed negative →
      m.value = N → N < 10 ^ 21 →
      (number x : Value σ).text = String.ofList (sign negative ++ Nat.toDigits 10 N)) := by
  have htext : (number x : Value σ).text = NumberStyle.printed.write (ofFloat x) := rfl
  rw [htext]
  cases hread : ofFloat x with
  | notANumber =>
    exact ⟨iff_of_true .notANumber fun _ _ _ h => (nomatch h), fun _ _ _ h => (nomatch h)⟩
  | infinite negative =>
    refine ⟨iff_of_true ?_ fun _ _ _ h => (nomatch h), fun _ _ _ h => (nomatch h)⟩
    cases negative with
    | false => exact .infinity
    | true => exact .negativeInfinity
  | finite negative c e =>
    obtain ⟨m, rfl, rfl, hmost⟩ := exists_magnitude_of_read hread
    have hsign : m.coefficient = 0 → negative = false := fun hm => by
      cases negative with
      | false => rfl
      | true => exact absurd (eq_of_read_negative_zero (hm ▸ hread)) hx
    rw [← signed]
    constructor
    · rw [NumberStyle.isText_printed_iff hmost hsign]
      refine ⟨fun h negative' m' N heq => ?_, fun h N => h negative m N rfl⟩
      obtain ⟨rfl, rfl⟩ := signed_inj heq
      exact h N
    · intro negative' m' N heq hN hlt
      obtain ⟨rfl, rfl⟩ := signed_inj heq
      exact NumberStyle.printed_whole hmost hsign hN hlt

theorem text_number_millionth :
    (Float.ofBits 0x3EB0C6F7A0B5ED8D).toBits ≠ 0x8000000000000000 ∧
    IsText (ofFloat (Float.ofBits 0x3EB0C6F7A0B5ED8D)) "0.000001" := by
  have hx : (Float.ofBits 0x3EB0C6F7A0B5ED8D).toBits ≠ 0x8000000000000000 := by decide
  have hread : ofFloat (Float.ofBits 0x3EB0C6F7A0B5ED8D) = millionth.signed false := by decide
  have htext : (number (Float.ofBits 0x3EB0C6F7A0B5ED8D) : Value).text = "0.000001" := by
    decide +kernel
  refine ⟨hx, ?_⟩
  rw [← htext]
  refine (text_number (Float.ofBits 0x3EB0C6F7A0B5ED8D) hx).1.mpr ?_
  intro negative m N heq hN hlarge
  obtain ⟨-, rfl⟩ := signed_inj (hread.symm.trans heq)
  have hone : millionth.value < 1 := by norm_num [value, millionth]
  rw [hN, Nat.cast_lt_one] at hone
  omega

/-- The bits of 2⁵⁵, which has seventeen digits. Sixteen of them are read back. -/
theorem text_number_two_pow_fifty_five :
    (Float.ofBits 0x4360000000000000).toBits ≠ 0x8000000000000000 ∧
    (number (Float.ofBits 0x4360000000000000) : Value).text = "36028797018963968" ∧
    IsText (ofFloat (Float.ofBits 0x4360000000000000)) "36028797018963970" ∧
    ¬ IsText (ofFloat (Float.ofBits 0x4360000000000000)) "36028797018963968" := by
  have hread : ofFloat (Float.ofBits 0x4360000000000000) = finite false 4503599627370496 3 := by
    decide
  obtain ⟨m, hcoefficient, hexponent, hmost⟩ := exists_magnitude_of_read hread
  rw [← hcoefficient, ← hexponent, ← signed] at hread
  have hm : m.coefficient ≠ 0 := by
    rw [hcoefficient]
    decide
  have hN : m.value = (36028797018963968 : ℕ) := by
    norm_num [value, hcoefficient, hexponent]
  obtain ⟨n, k, s, hshortest, h⟩ := Decimal.shortest_spec .up hm hmost
  have hfound : Decimal.shortest .up m.coefficient m.exponent = ⟨3602879701896397, 1⟩ := by
    rw [hcoefficient, hexponent]
    decide +kernel
  obtain ⟨rfl, hplaces⟩ := Decimal.mk.inj (hshortest.symm.trans hfound)
  obtain rfl : k = 16 := h.length_toDigits.symm.trans (by decide)
  obtain rfl : n = 17 := by omega
  rw [hread]
  refine ⟨by decide, by decide +kernel, .nonzero hm h, ?_⟩
  exact (isText_whole_iff hm hN (by norm_num)).not.mpr
    (h.toReads.not_shortestExact hN (by norm_num) (by norm_num))

end Value

end LoxLang
