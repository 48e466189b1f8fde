import Mathlib.Algebra.Group.Nat.Defs
import Linework.Json.Numeral

/-!
# Doubles that stay finite

A product of doubles is infinite only if it is too large, and how large it can be
shows in the factors. A double is so many units, fewer than `2 ^ 53` of them, and its
unit is a power of two. `Within` bounds the exponent of the unit, and each
operation is followed through what it does to that bound: rounding to the units of a
double, packing into bits and back, and multiplication.

This is all that is needed to know that a numeral with few digits before its point
stands for some number, `Json.Numeral.exists_magnitude`: which one is another
question.
-/

namespace Linework

open Float.Model (Format UnpackedFloat totalExponent)
open Float.Model.UnpackedFloat

/-- A finite number in units of a double, none of them greater than `2 ^ e`. -/
def Within (e : Int) : UnpackedFloat → Prop
  | .zero _ => True
  | .finite _ m k _ => m < 2 ^ 53 ∧ k ≤ e
  | .infinity _ => False
  | .notANumber => False

instance decidableWithin (e : Int) : DecidablePred (Within e)
  | .zero _ => inferInstanceAs (Decidable True)
  | .finite _ m k _ => inferInstanceAs (Decidable (m < 2 ^ 53 ∧ k ≤ e))
  | .infinity _ => inferInstanceAs (Decidable False)
  | .notANumber => inferInstanceAs (Decidable False)

theorem Within.mono {e e' : Int} (he : e ≤ e') {u : UnpackedFloat} (h : Within e u) :
    Within e' u := by
  cases u with
  | zero s => trivial
  | finite s m k hm => exact ⟨h.1, Int.le_trans h.2 he⟩
  | infinity s => exact h
  | notANumber => exact h

theorem Within.isInf_eq {e : Int} {u : UnpackedFloat} (h : Within e u) : u.isInf = false := by
  cases u with
  | zero s => rfl
  | finite s m k hm => rfl
  | infinity s => exact h.elim
  | notANumber => rfl

/-! ## Rounding -/

theorem mantissa_shiftRight (em : ExtendedMantissa) (n : Nat) :
    (em >>> n).mantissa = em.mantissa / 2 ^ n := by
  show (n.repeat ExtendedMantissa.shiftRightOne em).mantissa = _
  induction n with
  | zero => rw [Nat.pow_zero, Nat.div_one]; rfl
  | succ n ih =>
    show (n.repeat ExtendedMantissa.shiftRightOne em).mantissa / 2 = _
    rw [ih, Nat.div_div_eq_div_mul, Nat.pow_succ]

/-- Rounding adds one unit at most. -/
theorem roundedMantissa_le (em : ExtendedMantissa) : em.roundedMantissa ≤ em.mantissa + 1 := by
  unfold ExtendedMantissa.roundedMantissa
  cases em.accuracy with
  | exact => exact Nat.le_succ _
  | inexact o =>
    cases o with
    | lt => exact Nat.le_succ _
    | eq => exact Nat.add_le_add_left (Nat.le_of_lt_succ (Nat.mod_lt _ (by decide))) _
    | gt => exact Nat.le_refl _

/-- The exponent of the unit that a number is brought to. -/
def unitOf (m : Nat) (e : Int) : Int := max e (max (m.log2 + e - 52) (-1074))

theorem targetExponent_eq (m : Nat) (e : Int) :
    Format.binary64.targetExponent (totalExponent m e) = max (m.log2 + e - 52) (-1074) := by
  show max ((m.log2 : Int) + 1 + e - 53) (3 - 1024 - 53) = _
  omega

/-- **Shifting** leaves fewer than `2 ^ 53` units, of the size that was called for. -/
theorem shiftToTargetExponent_spec (m : Nat) (e : Int) (accuracy : Accuracy) :
    (shiftToTargetExponent Format.binary64 m e accuracy).1.mantissa < 2 ^ 53 ∧
      (shiftToTargetExponent Format.binary64 m e accuracy).2 = unitOf m e := by
  have hinitial : (ExtendedMantissa.ofMantissaAndAccuracy m accuracy).mantissa = m := by
    cases accuracy with
    | exact => rfl
    | inexact o => cases o <;> rfl
  unfold shiftToTargetExponent shiftToExponent unitOf
  dsimp only
  rw [targetExponent_eq, mantissa_shiftRight, hinitial]
  generalize hshift : (max ((m.log2 : Int) + e - 52) (-1074) - e).toNat = shift
  refine ⟨?_, by omega⟩
  -- as many bits as are too many are dropped
  have hbits : m.log2 + 1 ≤ 53 + shift := by omega
  rw [Nat.div_lt_iff_lt_mul (Nat.pow_pos (by decide)), ← Nat.pow_add]
  exact Nat.lt_of_lt_of_le Nat.lt_log2_self (Nat.pow_le_pow_right (by decide) hbits)

/-- **Rounding** may carry into one more bit, and then the unit doubles. -/
theorem within_roundWithAccuracy (sign : Sign) (m : Nat) (e : Int) (accuracy : Accuracy) :
    Within (unitOf m e + 1) (roundWithAccuracy Format.binary64 sign m e accuracy) := by
  obtain ⟨hunits, hunit⟩ := shiftToTargetExponent_spec m e accuracy
  unfold roundWithAccuracy
  generalize shiftToTargetExponent Format.binary64 m e accuracy = shifted at hunits hunit
  obtain ⟨em, e₁⟩ := shifted
  dsimp only at hunits hunit ⊢
  have hrounded : em.roundedMantissa ≤ 2 ^ 53 := Nat.le_trans (roundedMantissa_le em) hunits
  obtain ⟨hunits', hunit'⟩ := shiftToTargetExponent_spec em.roundedMantissa e₁ .exact
  have hlog : em.roundedMantissa.log2 ≤ 53 := by
    by_cases hzero : em.roundedMantissa = 0
    · rw [hzero]
      decide
    · exact Nat.le_of_lt_succ ((Nat.log2_lt hzero).2
        (Nat.lt_of_le_of_lt hrounded (by decide)))
  by_cases hnone :
      (shiftToTargetExponent Format.binary64 em.roundedMantissa e₁ .exact).1.mantissa = 0
  · rw [dif_pos hnone]
    trivial
  · rw [dif_neg hnone]
    refine ⟨hunits', ?_⟩
    rw [hunit']
    unfold unitOf at hunit ⊢
    omega

/-- **Rounding from any unit.** If the unit is too great for so few bits, there are made as
many more bits as the unit is made smaller. -/
theorem within_round (sign : Sign) {m : Nat} (hm : m ≠ 0) (e : Int) :
    Within (max (m.log2 + e - 51) (-1073)) (UnpackedFloat.round Format.binary64 sign m e) := by
  unfold UnpackedFloat.round decreaseExponent
  dsimp only
  rw [targetExponent_eq]
  generalize hshift : (e - max ((m.log2 : Int) + e - 52) (-1074)).toNat = shift
  have hlog : (m <<< shift).log2 < m.log2 + 1 + shift := by
    have hpow : 0 < 2 ^ shift := Nat.pow_pos (by decide)
    rw [Nat.shiftLeft_eq, Nat.log2_lt (Nat.mul_ne_zero hm (Nat.ne_of_gt hpow)), Nat.pow_add]
    exact Nat.mul_lt_mul_of_pos_right Nat.lt_log2_self hpow
  refine (within_roundWithAccuracy sign (m <<< shift) (e - shift) .exact).mono ?_
  unfold unitOf
  omega

/-! ## Packing -/

/-- Bits whose exponent is not the greatest are those of a finite number, and its unit is
the one the exponent says, or the least. -/
theorem within_unpack {e : Int} (hleast : -1074 ≤ e) {bits : BitVec 64} {stored : BitVec 11}
    (hbits : @unpackExponent Format.binary64 bits = stored)
    (hstored : (stored.toNat : Int) ≤ e + 1075) (hspecial : stored.toNat < 2047) :
    Within e (unpack Format.binary64 bits) := by
  have hne : @unpackExponent Format.binary64 bits ≠ -1#11 := by
    rw [hbits]
    rintro rfl
    exact absurd hspecial (by decide)
  unfold UnpackedFloat.unpack
  dsimp only
  rw [if_neg hne]
  by_cases hzero : @unpackExponent Format.binary64 bits = 0#11
  · rw [if_pos hzero]
    by_cases hnone : @unpackMantissa Format.binary64 bits = 0#52
    · rw [dif_pos hnone]
      trivial
    · rw [dif_neg hnone]
      refine ⟨Nat.lt_trans (@unpackMantissa Format.binary64 bits).isLt (by decide), ?_⟩
      rw [hzero]
      exact hleast
  · rw [if_neg hzero]
    refine ⟨(1#1 ++ @unpackMantissa Format.binary64 bits).isLt, ?_⟩
    show ((@unpackExponent Format.binary64 bits).toNat : Int) - (1023 + 52) ≤ e
    rw [hbits]
    omega

/-- **Packing** keeps a number finite whose unit is not too great. Below the least
unit it may lose what it has, and then it is smaller still. -/
theorem within_unpack_pack {e : Int} (hleast : -1074 ≤ e) (hgreatest : e ≤ 971)
    {u : UnpackedFloat} (h : Within e u) : Within e (Float.Model.pack u).unpack := by
  have hnone : ((0#11).toNat : Int) ≤ e + 1075 := by
    show (0 : Int) ≤ e + 1075
    omega
  show Within e (unpack Format.binary64 (pack Format.binary64 u))
  cases u with
  | zero s => exact within_unpack hleast unpackExponent_packComponents hnone (by decide)
  | infinity s => exact h.elim
  | notANumber => exact h.elim
  | finite s m k hm =>
    have hk : k ≤ e := h.2
    unfold UnpackedFloat.pack
    dsimp only
    generalize hbiased : (k + Format.binary64.exponentBias +
      Format.binary64.mantissaBitsWithoutImplicit).toNat = biased
    have hle : (biased : Int) ≤ e + 1075 := by
      rw [← hbiased]
      show ((k + 1023 + 52).toNat : Int) ≤ e + 1075
      omega
    rw [if_neg (by show ¬ 2048 ≤ biased + 1; omega)]
    split
    · refine within_unpack hleast unpackExponent_packComponents ?_ ?_
      · rw [BitVec.toNat_ofNat]
        omega
      · rw [BitVec.toNat_ofNat]
        omega
    · exact within_unpack hleast unpackExponent_packComponents hnone (by decide)

/-! ## Multiplication -/

theorem lt_two_pow_of_mul {m n : Nat} (hm : m < 2 ^ 53) (hn : n < 2 ^ 53) :
    m * n < 2 ^ 106 := by
  calc m * n < 2 ^ 53 * 2 ^ 53 := Nat.mul_lt_mul_of_lt_of_le hm (Nat.le_of_lt hn) (by decide)
    _ = 2 ^ 106 := by decide

/-- **A product** has the unit of its factors, and as many bits more as it has too many. -/
theorem within_mul {e e' : Int} (he : -1127 ≤ e + e') {a b : UnpackedFloat} (ha : Within e a)
    (hb : Within e' b) : Within (e + e' + 54) (mul Format.binary64 a b) := by
  cases a with
  | infinity s => exact ha.elim
  | notANumber => exact ha.elim
  | zero s =>
    cases b with
    | infinity s' => exact hb.elim
    | notANumber => exact hb.elim
    | zero s' => trivial
    | finite s' n k' hn => trivial
  | finite s m k hm =>
    cases b with
    | infinity s' => exact hb.elim
    | notANumber => exact hb.elim
    | zero s' => trivial
    | finite s' n k' hn =>
      have hlog : (m * n).log2 < 106 :=
        (Nat.log2_lt (Nat.ne_of_gt (Nat.mul_pos hm hn))).2 (lt_two_pow_of_mul ha.1 hb.1)
      have hk : k ≤ e := ha.2
      have hk' : k' ≤ e' := hb.2
      refine (within_roundWithAccuracy _ (m * n) (k + k') .exact).mono ?_
      unfold unitOf
      omega

namespace Json

/-! ## Numerals -/

/-- A count in double precision. -/
theorem within_toFloat (n : UInt64) : Within 12 n.toFloat.toModel.unpack := by
  refine within_unpack_pack (by decide) (by decide) ?_
  show Within 12 (UnpackedFloat.normalize Format.binary64 (n.toNat : Int) 0 .positive)
  unfold UnpackedFloat.normalize
  split
  · next hcompare => exact absurd (Int.compare_eq_lt.1 hcompare) (by omega)
  · trivial
  · next hcompare =>
    have hpos : n.toNat ≠ 0 := by
      have := Int.compare_eq_gt.1 hcompare
      omega
    have hlog : n.toNat.log2 < 64 := (Nat.log2_lt hpos).2 n.toNat_lt
    rw [Int.toNat_natCast]
    exact (within_round .positive hpos 0).mono (by omega)

/-- The powers of ten that a single may be written with. -/
theorem within_powerOfTen : ∀ e < 64, Within 200 (powerOfTen e).toModel.unpack := by
  decide +kernel

/-- **A numeral stands for some number** if the power of ten it counts is not large. -/
theorem Numeral.exists_magnitude {n : Numeral} (h : n.exponent < 64) :
    ∃ x, n.magnitude = .ok x := by
  unfold magnitude
  dsimp only
  cases hexponent : n.exponent with
  | negSucc e => exact ⟨_, rfl⟩
  | ofNat e =>
    have he : e < 64 := by
      rw [hexponent] at h
      exact Int.ofNat_lt.1 h
    have hproduct : Within 266 (n.digits.toUInt64.toFloat * powerOfTen e).toModel.unpack :=
      within_unpack_pack (by decide) (by decide)
        (within_mul (by decide) (within_toFloat n.digits.toUInt64) (within_powerOfTen e he))
    have hfinite : (n.digits.toUInt64.toFloat * powerOfTen e).isInf = false := hproduct.isInf_eq
    dsimp only
    rw [if_neg (by show ¬ 308 < e; omega), hfinite]
    exact ⟨_, rfl⟩

end Json

end Linework
