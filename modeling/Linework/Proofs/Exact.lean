import Mathlib.Data.Rat.Floor
import Mathlib.Tactic.Linarith
import Linework.Scalar.Exact

/-!
# The operations over exact numbers

A formula over any `Scalar` is written in operations that have to cope with numbers
that are none and with whole parts counted up from zero. Over the rationals all of them
are old acquaintances: the two minima and maxima are the least and the greatest, the
position on a circle of circumference one is the fractional part, of negative numbers
too, and rounding is the floor of half more as long as nothing is negative. This module
says so, one operation at a time, and what is proved about a formula over the rationals
starts from here.
-/

namespace Linework.Scalar

@[simp] theorem ofNat_rat (n : ℕ) : (ofNat n : ℚ) = n := rfl

@[simp] theorem maxNum_rat (a b : ℚ) : maxNum a b = max a b := by
  rw [maxNum, if_pos (beq_self_eq_true a)]
  exact (max_def_lt a b).symm

@[simp] theorem minNum_rat (a b : ℚ) : minNum a b = min a b := by
  rw [minNum, if_pos (beq_self_eq_true a)]
  exact (min_def_lt b a).symm.trans (min_comm b a)

/-- What lies in an interval already is not moved. -/
theorem clamp_rat {x lo hi : ℚ} (hlo : lo ≤ x) (hhi : x ≤ hi) : clamp x lo hi = x := by
  rw [clamp, if_neg (not_lt.2 hlo), if_neg (not_lt.2 hhi)]

theorem epsilon_rat : (epsilon : ℚ) = 1 / 8388608 := rfl

theorem epsilon_pos : (0 : ℚ) < epsilon := by
  norm_num [epsilon_rat]

theorem fract_rat_of_nonneg {x : ℚ} (h : 0 ≤ x) : fract x = Int.fract x :=
  if_neg (not_lt.2 h)

theorem fract_rat_of_neg {x : ℚ} (h : x < 0) : fract x = -Int.fract (-x) :=
  if_pos h

/-- **The position on the circle is the fractional part**, whatever the sign. A negative
number has its sign taken off and put back, which is the other way round the circle; one
more turn makes up for it, but for whole numbers. -/
theorem turn_rat (x : ℚ) : turn x = Int.fract x := by
  show (if fract x < 0 then fract x + 1 else fract x) = Int.fract x
  rcases lt_or_ge x 0 with h | h
  · rw [fract_rat_of_neg h]
    by_cases hwhole : Int.fract x = 0
    · have hneg : Int.fract (-x) = 0 := Int.fract_neg_eq_zero.2 hwhole
      rw [hneg, hwhole, neg_zero, if_neg (lt_irrefl 0)]
    · have hneg : Int.fract (-x) = 1 - Int.fract x := Int.fract_neg hwhole
      rw [hneg, if_pos (by linarith [Int.fract_lt_one x])]
      ring
  · rw [fract_rat_of_nonneg h, if_neg (not_lt.2 (Int.fract_nonneg x))]

/-- The floor of a number that is so many whole ones and less than one more. -/
theorem floor_rat {n : ℕ} {f : ℚ} (hf : f ∈ Set.Ico (0 : ℚ) 1) :
    (floor (n + f : ℚ) : ℚ) = n := by
  have hfloor : ⌊(n + f : ℚ)⌋ = (n : ℤ) := by
    rw [Int.floor_natCast_add, Int.floor_eq_zero_iff.2 hf, add_zero]
  show ((⌊(n + f : ℚ)⌋ : ℤ) : ℚ) = n
  rw [hfloor, Int.cast_natCast]

theorem toNat_rat (n : ℕ) : toNat (n : ℚ) = n := by
  show ⌊(n : ℚ)⌋.toNat = n
  rw [Int.floor_natCast, Int.toNat_natCast]

/-- **Rounding goes half up**, from zero on. -/
theorem toNat_round_rat {x : ℚ} (h : 0 ≤ x) : (toNat (round x) : ℤ) = ⌊x + 1 / 2⌋ := by
  have hround : (round x : ℚ) = (⌊x + 1 / 2⌋ : ℤ) := by
    show ((roundHalfAway x : ℤ) : ℚ) = _
    rw [roundHalfAway, if_neg (not_lt.2 h)]
    rfl
  have hpos : 0 ≤ ⌊x + 1 / 2⌋ := Int.floor_nonneg.2 (by linarith)
  rw [hround]
  show ((⌊((⌊x + 1 / 2⌋ : ℤ) : ℚ)⌋.toNat : ℕ) : ℤ) = _
  rw [Int.floor_intCast, Int.toNat_of_nonneg hpos]

end Linework.Scalar
