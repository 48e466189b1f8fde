import Mathlib.Data.Prod.Lex
import Linework.Decimal.Layout

/-!
# Singles and their bits

Two questions about a single are answered in two places: whether it is finite and
whether it equals another one by the arithmetic of singles, and what it looks like
taken apart by the arithmetic of its bits. Texts come from the second, equality of
scenes from the first. This module joins them.

The arithmetic tells less than the bits do: it does not tell the two zeros apart,
and that is all (`eq_of_beq_of_isFinite`). Which of two singles is the smaller one
is a matter of their ranks in a linear order, in which both zeros have the same
rank; what is not a number has none (`lt_iff_rank?`). So all numbers are ordered, up to
which zero it is (`le_iff_rank`, `beq_iff_rank`).
-/

namespace Linework

open Float.Model (Format UnpackedFloat)
open Float.Model.UnpackedFloat

/-! ## The three parts of the bits -/

theorem toNat_unpackMantissa (b : BitVec 32) :
    (@unpackMantissa Format.binary32 b).toNat = b.toNat % 8388608 := by
  simp [unpackMantissa, BitVec.extractLsb]

theorem toNat_unpackExponent (b : BitVec 32) :
    (@unpackExponent Format.binary32 b).toNat = b.toNat / 8388608 % 256 := by
  simp [unpackExponent, BitVec.extractLsb, Nat.shiftRight_eq_div_pow]

theorem toNat_unpackSign (b : BitVec 32) :
    (@unpackSign Format.binary32 b).toNat = b.toNat / 2147483648 % 2 := by
  show (b.extractLsb' 31 1).toNat = _
  rw [BitVec.extractLsb'_toNat, Nat.shiftRight_eq_div_pow]

theorem unpackExponent_eq_iff (b : BitVec 32) (n : Nat) :
    @unpackExponent Format.binary32 b = BitVec.ofNat 8 n ↔
      b.toNat / 8388608 % 256 = n % 256 := by
  rw [← BitVec.toNat_inj, toNat_unpackExponent, BitVec.toNat_ofNat]
  rfl

theorem unpackMantissa_eq_zero_iff (b : BitVec 32) :
    @unpackMantissa Format.binary32 b = 0#23 ↔ b.toNat % 8388608 = 0 := by
  rw [← BitVec.toNat_inj, toNat_unpackMantissa]
  rfl

/-- Two singles with the same bits are the same. -/
theorem eq_of_toNat_toBits {x y : Float32} (h : x.toBits.toNat = y.toBits.toNat) : x = y := by
  obtain ⟨⟨bits, hx⟩⟩ := x
  obtain ⟨⟨bits', hy⟩⟩ := y
  have hbits : bits = bits' := UInt32.toNat_inj.1 h
  subst hbits
  rfl

/-! ## Finite singles -/

theorem ofBitVec_unpackSign (b : BitVec 32) :
    Sign.ofBitVec (@unpackSign Format.binary32 b) = .negative ↔ 2147483648 ≤ b.toNat := by
  have hlt : b.toNat < 4294967296 := b.isLt
  have hsign : @unpackSign Format.binary32 b = 0#1 ↔ b.toNat / 2147483648 % 2 = 0 := by
    rw [← BitVec.toNat_inj, toNat_unpackSign]
    rfl
  unfold Sign.ofBitVec
  by_cases h : b.toNat / 2147483648 % 2 = 0
  · rw [if_pos (hsign.2 h)]
    exact iff_of_false Sign.noConfusion (by omega)
  · rw [if_neg fun h' => h (hsign.1 h')]
    exact iff_of_true rfl (by omega)

/-- The units of a normal number have a leading bit that is not stored. -/
theorem toNat_leading_append (m : BitVec 23) : (1#1 ++ m).toNat = 8388608 + m.toNat := by
  rw [BitVec.toNat_append, ← Nat.shiftLeft_add_eq_or_of_lt m.isLt]
  rfl

/-- **What a single unpacks to.** If all bits of its exponent are set, it is infinite
or not a number. Otherwise it has the sign that its bits begin with, and it is a zero
or its other bits are those of its units and its exponent. -/
theorem unpack_cases (x : Float32) :
    (x.toBits.toNat / 8388608 % 256 = 255 ∧ x.toModel.unpack.isFinite = false) ∨
      (x.toBits.toNat / 8388608 % 256 ≠ 255 ∧
        ∃ sign : Sign, (sign = .negative ↔ 2147483648 ≤ x.toBits.toNat) ∧
          ((x.toModel.unpack = .zero sign ∧ x.toBits.toNat % 2147483648 = 0) ∨
            ∃ m e hm, x.toModel.unpack = .finite sign m e hm ∧
              ((x.toBits.toNat % 2147483648 : Nat) : Int) = (e + 149) * 8388608 + m)) := by
  have hspecial := unpackExponent_eq_iff x.toBits.toBitVec 255
  have hleast := unpackExponent_eq_iff x.toBits.toBitVec 0
  have hnone := unpackMantissa_eq_zero_iff x.toBits.toBitVec
  have hmantissa := toNat_unpackMantissa x.toBits.toBitVec
  have hexponent := toNat_unpackExponent x.toBits.toBitVec
  rw [UInt32.toNat_toBitVec] at hspecial hleast hnone hmantissa hexponent
  unfold Float32.Model.unpack UnpackedFloat.unpack
  dsimp only
  by_cases hstored : @unpackExponent Format.binary32 x.toBits.toBitVec = -1#8
  · refine .inl ⟨hspecial.1 hstored, ?_⟩
    rw [show x.toModel.toBits.toBitVec = x.toBits.toBitVec from rfl, if_pos hstored]
    by_cases hm : @unpackMantissa Format.binary32 x.toBits.toBitVec = 0#23
    · rw [if_pos hm]
      rfl
    · rw [if_neg hm]
      rfl
  · refine .inr ⟨fun h => hstored (hspecial.2 h), _, ofBitVec_unpackSign x.toBits.toBitVec, ?_⟩
    rw [show x.toModel.toBits.toBitVec = x.toBits.toBitVec from rfl, if_neg hstored]
    by_cases hzero : @unpackExponent Format.binary32 x.toBits.toBitVec = 0#8
    · -- subnormal: the exponent is that of the next range, and no leading one is implied
      have hexponent0 := hleast.1 hzero
      rw [if_pos hzero]
      by_cases hm : @unpackMantissa Format.binary32 x.toBits.toBitVec = 0#23
      · rw [dif_pos hm]
        have hfraction := hnone.1 hm
        exact .inl ⟨rfl, by omega⟩
      · rw [dif_neg hm]
        refine .inr ⟨_, _, Nat.pos_of_ne_zero fun h0 => hm (BitVec.toNat_inj.1 h0), rfl, ?_⟩
        rw [hexponent, hmantissa]
        show _ = ((_ : Int) - (127 + 23) + 1 + 149) * 8388608 + _
        omega
    · have hexponent0 : x.toBits.toNat / 8388608 % 256 ≠ 0 := fun h => hzero (hleast.2 h)
      have hpos : 0 < (1#1 ++ @unpackMantissa Format.binary32 x.toBits.toBitVec).toNat := by
        rw [toNat_leading_append]
        omega
      rw [if_neg hzero]
      refine .inr ⟨_, _, hpos, rfl, ?_⟩
      rw [toNat_leading_append, hexponent, hmantissa]
      show _ = ((_ : Int) - (127 + 23) + 149) * 8388608 + _
      omega

/-- A single is finite unless all bits of its exponent are set. -/
theorem isFinite_iff (x : Float32) :
    x.isFinite = true ↔ x.toBits.toNat / 8388608 % 256 ≠ 255 := by
  show x.toModel.unpack.isFinite = true ↔ _
  rcases unpack_cases x with ⟨hstored, h⟩ | ⟨hstored, sign, -, ⟨h, -⟩ | ⟨m, e, hm, h, -⟩⟩
  · rw [h]
    exact iff_of_false Bool.false_ne_true (not_not_intro hstored)
  · rw [h]
    exact iff_of_true rfl hstored
  · rw [h]
    exact iff_of_true rfl hstored

/-- A single that is not finite has no digits. -/
theorem ofSingle_of_not_isFinite {x : Float32} (h : x.isFinite = false) :
    BinaryParts.ofSingle x = .nan ∨ ∃ negative, BinaryParts.ofSingle x = .infinite negative := by
  have hstored : x.toBits.toNat / 8388608 % 256 = 255 := by
    refine Decidable.byContradiction fun hne => ?_
    rw [(isFinite_iff x).2 hne] at h
    cases h
  unfold BinaryParts.ofSingle BinaryFormat.decode
  dsimp only
  rw [if_pos (show x.toBits.toNat / BinaryFormat.single.leading %
    (BinaryFormat.single.special + 1) = BinaryFormat.single.special from hstored)]
  split
  · exact .inr ⟨_, rfl⟩
  · exact .inl rfl

/-! ## Equality -/

/-- What compares equal to a finite number is the same number, or both are zeros. -/
theorem eq_or_zero_of_compare {a b : UnpackedFloat} (ha : a.isFinite = true)
    (h : b.compare a = some .eq) : b = a ∨ ∃ s s', a = .zero s ∧ b = .zero s' := by
  cases a with
  | infinity s => cases ha
  | notANumber => cases ha
  | zero s =>
    cases b with
    | infinity s' => cases s' <;> cases h
    | notANumber => cases h
    | zero s' => exact .inr ⟨s, s', rfl, rfl⟩
    | finite s' m' e' hm' => cases s' <;> cases h
  | finite s m e hm =>
    cases b with
    | infinity s' => cases s' <;> cases h
    | notANumber => cases h
    | zero s' => cases s <;> cases h
    | finite s' m' e' hm' =>
      have hboth : s' = s ∧ (compare e' e).then (compare m' m) = .eq := by
        cases s <;> cases s'
        · exact ⟨rfl, Ordering.swap_eq_eq.1 (Option.some.inj h)⟩
        · cases h
        · cases h
        · exact ⟨rfl, Option.some.inj h⟩
      obtain ⟨rfl, hthen⟩ := hboth
      obtain ⟨he, hm⟩ := Ordering.then_eq_eq.1 hthen
      obtain rfl := Int.compare_eq_eq.1 he
      obtain rfl := Nat.compare_eq_eq.1 hm
      exact .inl rfl

/-- **Arithmetic tells all finite singles apart but the two zeros.** -/
theorem eq_of_beq_of_isFinite {x y : Float32} (hx : x.isFinite = true) (h : (y == x) = true) :
    y = x ∨ (x.toBits.toNat % 2147483648 = 0 ∧ y.toBits.toNat % 2147483648 = 0) := by
  have hcompare : y.toModel.unpack.compare x.toModel.unpack = some .eq := eq_of_beq h
  have hequal := eq_or_zero_of_compare hx hcompare
  have hy : y.isFinite = true := by
    show y.toModel.unpack.isFinite = true
    rcases hequal with heq | ⟨s, s', -, hzero⟩
    · rw [heq]
      exact hx
    · rw [hzero]
      rfl
  obtain ⟨hspecial, -⟩ | ⟨-, s, hs, hpartsx⟩ := unpack_cases x
  · exact absurd hspecial ((isFinite_iff x).1 hx)
  obtain ⟨hspecial, -⟩ | ⟨-, s', hs', hpartsy⟩ := unpack_cases y
  · exact absurd hspecial ((isFinite_iff y).1 hy)
  rcases hpartsx with ⟨hxzero, hx0⟩ | ⟨m, e, hm, hxparts, hxbits⟩
  · rcases hpartsy with ⟨-, hy0⟩ | ⟨m', e', hm', hyparts, -⟩
    · exact .inr ⟨hx0, hy0⟩
    · rw [hxzero, hyparts] at hequal
      rcases hequal with heq | ⟨_, _, -, heq⟩ <;> cases heq
  · rcases hpartsy with ⟨hyzero, -⟩ | ⟨m', e', hm', hyparts, hybits⟩
    · rw [hxparts, hyzero] at hequal
      rcases hequal with heq | ⟨_, _, heq, -⟩ <;> cases heq
    · -- the same sign, units and exponent: so the same bits
      rw [hxparts, hyparts] at hequal
      rcases hequal with heq | ⟨_, _, heq, -⟩
      · cases heq
        refine .inl (eq_of_toNat_toBits ?_)
        have hxlt : x.toBits.toNat < 4294967296 := x.toBits.toNat_lt
        have hylt : y.toBits.toNat < 4294967296 := y.toBits.toNat_lt
        have hsigns : 2147483648 ≤ x.toBits.toNat ↔ 2147483648 ≤ y.toBits.toNat := hs.symm.trans hs'
        omega
      · cases heq

/-- There are two zeros. -/
theorem eq_zero_of_toBits {x : Float32} (h : x.toBits.toNat % 2147483648 = 0) :
    x = 0 ∨ x = -0 := by
  have hlt : x.toBits.toNat < 4294967296 := x.toBits.toNat_lt
  by_cases hzero : x.toBits.toNat = 0
  · exact .inl (eq_of_toNat_toBits hzero)
  · refine .inr (eq_of_toNat_toBits ?_)
    show _ = 2147483648
    omega

/-! ## Order -/

/-- The rank of a number: the sign first, with a place of their own for zeros and
infinities, then the exponent and then the units, both of which count backwards
below zero. -/
def rank? : UnpackedFloat → Option (ℤ ×ₗ ℤ ×ₗ ℤ)
  | .notANumber => none
  | .infinity .negative => some (toLex (-2, toLex (0, 0)))
  | .finite .negative m e _ => some (toLex (-1, toLex (-e, -m)))
  | .zero _ => some (toLex (0, toLex (0, 0)))
  | .finite .positive m e _ => some (toLex (1, toLex (e, m)))
  | .infinity .positive => some (toLex (2, toLex (0, 0)))

theorem then_compare_eq_lt_iff (e e' : ℤ) (m m' : ℕ) :
    (compare e e').then (compare m m') = .lt ↔ e < e' ∨ e = e' ∧ m < m' := by
  rw [Ordering.then_eq_lt, Int.compare_eq_lt, Int.compare_eq_eq, Nat.compare_eq_lt]

theorem then_compare_eq_gt_iff (e e' : ℤ) (m m' : ℕ) :
    (compare e e').then (compare m m') = .gt ↔ e' < e ∨ e = e' ∧ m' < m := by
  rw [Ordering.then_eq_gt, Int.compare_eq_gt, Int.compare_eq_eq, Nat.compare_eq_gt]

/-- The smaller one of two numbers has the smaller rank. -/
theorem compare_eq_lt_iff (a b : UnpackedFloat) :
    a.compare b = some .lt ↔ ∃ r s, rank? a = some r ∧ rank? b = some s ∧ r < s := by
  rcases a with (_ | _) | _ | _ | ⟨_ | _, m, e, hm⟩ <;>
    rcases b with (_ | _) | _ | _ | ⟨_ | _, m', e', hm'⟩ <;>
    dsimp only [rank?, UnpackedFloat.compare] <;>
    simp [Prod.Lex.lt_iff, then_compare_eq_lt_iff, then_compare_eq_gt_iff]
  rfl

/-- **Singles are ordered by their ranks**, and what is not a number is not ordered. -/
theorem lt_iff_rank? {x y : Float32} :
    x < y ↔ ∃ r s, rank? x.toModel.unpack = some r ∧ rank? y.toModel.unpack = some s ∧ r < s := by
  rw [← compare_eq_lt_iff]
  show decide (x.toModel < y.toModel) = true ↔ _
  rw [decide_eq_true_iff]
  exact beq_iff_eq

/-- Numbers that compare equal have the same rank. -/
theorem compare_eq_eq_iff (a b : UnpackedFloat) :
    a.compare b = some .eq ↔ ∃ r s, rank? a = some r ∧ rank? b = some s ∧ r = s := by
  rcases a with (_ | _) | _ | _ | ⟨_ | _, m, e, hm⟩ <;>
    rcases b with (_ | _) | _ | _ | ⟨_ | _, m', e', hm'⟩ <;>
    dsimp only [rank?, UnpackedFloat.compare] <;>
    simp [Ordering.then_eq_eq]
  · rfl
  · rfl
  · omega
  · omega

/-- The rank of a single that is a number. -/
def rank (x : Float32) : ℤ ×ₗ ℤ ×ₗ ℤ := (rank? x.toModel.unpack).getD (toLex (0, toLex (0, 0)))

/-- Only numbers have ranks. -/
theorem rank?_eq_some_iff {x : Float32} {r : ℤ ×ₗ ℤ ×ₗ ℤ} :
    rank? x.toModel.unpack = some r ↔ x.isNaN = false ∧ rank x = r := by
  show _ ↔ x.toModel.unpack.isNaN = false ∧ (rank? x.toModel.unpack).getD _ = r
  rcases x.toModel.unpack with (_ | _) | _ | _ | ⟨_ | _, m, e, hm⟩ <;>
    dsimp only [rank?, UnpackedFloat.isNaN] <;>
    simp

theorem lt_iff_rank {x y : Float32} :
    x < y ↔ (x.isNaN = false ∧ y.isNaN = false) ∧ rank x < rank y := by
  rw [lt_iff_rank?]
  simp only [rank?_eq_some_iff]
  constructor
  · rintro ⟨_, _, ⟨hx, rfl⟩, ⟨hy, rfl⟩, hlt⟩
    exact ⟨⟨hx, hy⟩, hlt⟩
  · rintro ⟨⟨hx, hy⟩, hlt⟩
    exact ⟨_, _, ⟨hx, rfl⟩, ⟨hy, rfl⟩, hlt⟩

/-- Two numbers are equal if they have the same rank. -/
theorem beq_iff_rank {x y : Float32} :
    (x == y) = true ↔ (x.isNaN = false ∧ y.isNaN = false) ∧ rank x = rank y := by
  show (x.toModel.unpack.compare y.toModel.unpack == some .eq) = true ↔ _
  rw [beq_iff_eq, compare_eq_eq_iff]
  simp only [rank?_eq_some_iff]
  constructor
  · rintro ⟨_, _, ⟨hx, rfl⟩, ⟨hy, rfl⟩, heq⟩
    exact ⟨⟨hx, hy⟩, heq⟩
  · rintro ⟨⟨hx, hy⟩, heq⟩
    exact ⟨_, _, ⟨hx, rfl⟩, ⟨hy, rfl⟩, heq⟩

/-- **Numbers are ordered by their ranks.** -/
theorem le_iff_rank {x y : Float32} :
    x ≤ y ↔ (x.isNaN = false ∧ y.isNaN = false) ∧ rank x ≤ rank y := by
  have hor : x ≤ y ↔ x < y ∨ (x == y) = true := by
    show decide (x.toModel ≤ y.toModel) = true ↔
      decide (x.toModel < y.toModel) = true ∨ (x.toModel == y.toModel) = true
    rw [decide_eq_true_iff, decide_eq_true_iff]
    show (x.toModel.unpack.compare y.toModel.unpack).any (·.isLE) = true ↔
      (x.toModel.unpack.compare y.toModel.unpack == some .lt) = true ∨
        (x.toModel.unpack.compare y.toModel.unpack == some .eq) = true
    rcases x.toModel.unpack.compare y.toModel.unpack with _ | _ | _ | _ <;> decide
  rw [hor, lt_iff_rank, beq_iff_rank, ← and_or_left, le_iff_lt_or_eq]

theorem le_trans_single {x y z : Float32} (hxy : x ≤ y) (hyz : y ≤ z) : x ≤ z := by
  rw [le_iff_rank] at hxy hyz ⊢
  exact ⟨⟨hxy.1.1, hyz.1.2⟩, hxy.2.trans hyz.2⟩

instance isTrans_lt : IsTrans Float32 (· < ·) where
  trans x y z hxy hyz := by
    obtain ⟨r, s, hx, hy, hrs⟩ := lt_iff_rank?.1 hxy
    obtain ⟨s', u, hy', hz, hsu⟩ := lt_iff_rank?.1 hyz
    rw [hy, Option.some.injEq] at hy'
    rw [← hy'] at hsu
    exact lt_iff_rank?.2 ⟨r, u, hx, hz, hrs.trans hsu⟩

end Linework
