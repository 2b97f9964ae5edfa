import LoxLang.Number.Style
import LoxLang.Proofs.Scanning.Lexemes
import Mathlib.Data.Nat.Digits.Defs

/-!
# Numerals

What is known about a number in the text of a tree. A literal is read as a number or, where it is
too large, as an infinity, but never as no number at all; and a number is written with digits,
points and signs alone.

1. `Lexical.ofFloat_numberValue_ne`: the value of a literal.
2. `NumberStyle.isNumeral_inTree`: the text of a finite number.
-/

namespace LoxLang

open Float.Model (Format UnpackedFloat)

/-! ## Numbers that are none -/

namespace Unpacked

open Float.Model.UnpackedFloat

/-- A number with a value other than zero. -/
def isProper : UnpackedFloat → Bool
  | .finite .. => true
  | _ => false

variable {f a b : UnpackedFloat}

/-- Only what is no number is packed as such: all ones in the exponent, and a fraction. -/
theorem unpackMantissa_pack (hf : f ≠ .notANumber)
    (hones : unpackExponent (pack Format.binary64 f) = -1) :
    unpackMantissa (pack Format.binary64 f) = 0 := by
  revert hones
  fun_cases pack with
  | case1 => exact absurd rfl hf
  | case2 sign => simp [packedInfinity]
  | case3 sign => simp [packedZero]
  | case4 sign m e hm biased hlarge => simp [packedInfinity]
  | case5 sign m e hm bits biased hsmall hnormal =>
    intro hones
    rw [unpackExponent_packComponents] at hones
    have hfield := congrArg BitVec.toNat hones
    have hminus : (-1 : BitVec Format.binary64.exponentBits).toNat = 2047 := by decide
    have hpower : 2 ^ Format.binary64.exponentBits = 2048 := by decide
    rw [BitVec.toNat_ofNat, hminus, hpower] at hfield
    rw [hpower] at hsmall
    omega
  | case6 sign m e hm bits biased hsmall hsubnormal => simp

theorem roundWithAccuracy_ne (spec : Format) (sign : Sign) (m : Nat) (e : Int)
    (accuracy : Accuracy) : roundWithAccuracy spec sign m e accuracy ≠ .notANumber := by
  fun_cases roundWithAccuracy <;> exact nofun

/-- Nothing is divided by zero or by an infinity here. -/
theorem div_ne (spec : Format) (ha : a ≠ .notANumber) (hb : isProper b) :
    div spec a b ≠ .notANumber := by
  cases b with
  | finite sign m e hm =>
    cases a with
    | notANumber => exact absurd rfl ha
    | finite sign' m' e' hm' => exact roundWithAccuracy_ne _ _ _ _ _
    | infinity sign' => exact nofun
    | zero sign' => exact nofun
  | _ => exact nomatch hb

theorem ofScientific_ne (spec : Format) (m : Nat) (e : Int) :
    ofScientific spec m e ≠ .notANumber := by
  fun_cases ofScientific with
  | case1 => exact nofun
  | case2 => exact nofun
  | case3 => exact nofun
  | case4 => exact roundWithAccuracy_ne _ _ _ _ _
  | case5 => exact div_ne spec nofun rfl

theorem ofNat_ne (spec : Format) (n : Nat) : ofNat spec n ≠ .notANumber := by
  unfold ofNat ofInt UnpackedFloat.normalize
  split
  · exact roundWithAccuracy_ne _ _ _ _ _
  · exact nofun
  · exact roundWithAccuracy_ne _ _ _ _ _

end Unpacked

namespace Binary64

open Float.Model.UnpackedFloat

/-- The fields of a bit pattern, as they are read. -/
theorem toNat_unpackExponent (b : BitVec Format.binary64.numBits) :
    (unpackExponent b).toNat = b.toNat / leadingBit % Nat.pow 2 11 := by
  simp [unpackExponent, Nat.shiftRight_eq_div_pow, leadingBit]

theorem toNat_unpackMantissa (b : BitVec Format.binary64.numBits) :
    (unpackMantissa b).toNat = b.toNat % leadingBit := by
  simp [unpackMantissa, leadingBit]

theorem ofFloat_pack_ne {f : UnpackedFloat} (hf : f ≠ .notANumber) :
    ofFloat (.ofModel (.pack f)) ≠ .notANumber := by
  have hbits : (Float.ofModel (.pack f)).toBits.toNat = (pack Format.binary64 f).toNat := rfl
  intro hnone
  unfold ofFloat read at hnone
  rw [hbits, ← toNat_unpackExponent, ← toNat_unpackMantissa] at hnone
  by_cases hfield : (unpackExponent (pack Format.binary64 f)).toNat = 2047
  · have hones : unpackExponent (pack Format.binary64 f) = -1 := BitVec.eq_of_toNat_eq hfield
    rw [Unpacked.unpackMantissa_pack hf hones] at hnone
    simp [hfield] at hnone
  · simp only [if_neg hfield] at hnone
    split at hnone <;> exact nomatch hnone

theorem unpack_pack_ne {f : UnpackedFloat} (hf : f ≠ .notANumber) :
    (Float.Model.pack f).unpack ≠ .notANumber := by
  change unpack Format.binary64 (pack Format.binary64 f) ≠ .notANumber
  have hmantissa := Unpacked.unpackMantissa_pack hf
  generalize pack Format.binary64 f = b at hmantissa
  by_cases hones : unpackExponent b = -1
  · have hvalue : unpack Format.binary64 b = .infinity _ :=
      (if_pos hones).trans (if_pos (hmantissa hones))
    exact fun hnone => UnpackedFloat.noConfusion (hvalue.symm.trans hnone)
  · by_cases hfield : unpackExponent b = 0
    · by_cases hzero : unpackMantissa b = 0
      · have hvalue : unpack Format.binary64 b = .zero _ :=
          (if_neg hones).trans ((if_pos hfield).trans (dif_pos hzero))
        exact fun hnone => UnpackedFloat.noConfusion (hvalue.symm.trans hnone)
      · have hvalue : unpack Format.binary64 b = .finite _ _ _ _ :=
          (if_neg hones).trans ((if_pos hfield).trans (dif_neg hzero))
        exact fun hnone => UnpackedFloat.noConfusion (hvalue.symm.trans hnone)
    · have hvalue : unpack Format.binary64 b = .finite _ _ _ _ :=
        (if_neg hones).trans (if_neg hfield)
      exact fun hnone => UnpackedFloat.noConfusion (hvalue.symm.trans hnone)

end Binary64

/-- The powers of ten that a number is divided by are numbers. -/
theorem isProper_powerOfTen :
    Float.exactlyRepresentablePowersOfTen.all fun x => Unpacked.isProper x.toModel.unpack := by
  decide +kernel

namespace Lexical

theorem ofFloat_numberValue_ne (whole fraction : List Char) :
    Binary64.ofFloat (numberValue whole fraction) ≠ .notANumber := by
  unfold numberValue Float.ofScientific
  split
  · next h =>
    refine Binary64.ofFloat_pack_ne (Unpacked.div_ne _ ?_ ?_)
    · exact Binary64.unpack_pack_ne (Unpacked.ofNat_ne _ _)
    · exact Array.all_eq_true.1 isProper_powerOfTen _ _
  · exact Binary64.ofFloat_pack_ne (Unpacked.ofScientific_ne _ _ _)

end Lexical

/-! ## Digits -/

/-- A character of a number in the text of a tree. -/
def isNumeral (c : Char) : Bool :=
  c.isDigit || c == '.' || c == '-'

/-- The text of a number: some digits, points and signs. -/
structure IsNumeral (text : List Char) : Prop where
  ne_nil : text ≠ []
  inside : ∀ c ∈ text, isNumeral c

theorem isNumeral_iff {text : List Char} :
    (text ≠ [] ∧ text.all isNumeral) ↔ IsNumeral text :=
  ⟨fun h => ⟨h.1, List.all_eq_true.1 h.2⟩, fun h => ⟨h.ne_nil, List.all_eq_true.2 h.inside⟩⟩

instance (text : List Char) : Decidable (IsNumeral text) :=
  decidable_of_iff _ isNumeral_iff

namespace IsNumeral

theorem toDigits (n : Nat) : IsNumeral (Nat.toDigits 10 n) where
  ne_nil := Nat.toDigits_ne_nil
  inside c hc := by simp [isNumeral, Nat.isDigit_of_mem_toDigits (by decide) (by decide) hc]

theorem append {text more : List Char} (h : IsNumeral text)
    (hmore : ∀ c ∈ more, isNumeral c) : IsNumeral (text ++ more) where
  ne_nil := by simp [h.ne_nil]
  inside c hc := by
    rcases List.mem_append.1 hc with hc | hc
    · exact h.inside c hc
    · exact hmore c hc

theorem cons {c : Char} {text : List Char} (hc : isNumeral c) (h : ∀ d ∈ text, isNumeral d) :
    IsNumeral (c :: text) :=
  ⟨List.cons_ne_nil c text, List.forall_mem_cons.2 ⟨hc, h⟩⟩

end IsNumeral

namespace NumberStyle

theorem isNumeral_of_mem_replicate {n : Nat} : ∀ c ∈ List.replicate n '0', isNumeral c := by
  intro c hc
  rw [List.eq_of_mem_replicate hc]
  rfl

/-- Positional notation has digits and at most a point. -/
theorem isNumeral_positionally (x : Decimal) : IsNumeral (inTree.positionally x) := by
  have hdigits : IsNumeral x.chars := .toDigits x.digits
  simp only [positionally]
  split
  · rw [show inTree.paddedTail = [] from rfl, List.append_nil]
    exact hdigits.append isNumeral_of_mem_replicate
  · split
    · next e _ _ =>
      have hwhole : ∀ c ∈ x.chars.take (x.chars.length - (e + 1)), isNumeral c :=
        fun c hc => hdigits.inside c (List.mem_of_mem_take hc)
      have hplaces : ∀ c ∈ '.' :: x.chars.drop (x.chars.length - (e + 1)), isNumeral c :=
        List.forall_mem_cons.2 ⟨rfl, fun c hc => hdigits.inside c (List.mem_of_mem_drop hc)⟩
      refine ⟨by simp, fun c hc => ?_⟩
      rcases List.mem_append.1 hc with hc | hc
      · exact hwhole c hc
      · exact hplaces c hc
    · refine IsNumeral.append (.cons rfl (List.forall_mem_cons.2 ⟨rfl, ?_⟩)) hdigits.inside
      exact isNumeral_of_mem_replicate

theorem isNumeral_magnitude (coefficient : Nat) (exponent : Int) :
    IsNumeral (inTree.magnitude coefficient exponent) := by
  simp only [magnitude]
  rw [if_pos (show inTree.positional _ = true from rfl)]
  split
  · exact (IsNumeral.toDigits _).append (IsNumeral.inside (by decide))
  · exact isNumeral_positionally _

/-- A finite number is written with digits, points and signs. -/
theorem isNumeral_inTree (negative : Bool) (coefficient : Nat) (exponent : Int) :
    IsNumeral (inTree.write (.finite negative coefficient exponent)).toList := by
  simp only [write]
  split
  · rw [String.toList_ofList]
    cases negative <;> decide
  · rw [String.toList_ofList]
    have hmagnitude := isNumeral_magnitude coefficient exponent
    cases negative
    · exact hmagnitude
    · exact .cons rfl hmagnitude.inside

end NumberStyle

end LoxLang
