import Mathlib.Algebra.Group.Nat.Defs
import Linework.Decimal.Layout

/-!
# The size of shortest decimals

Which decimal is the shortest is of no matter here. What is followed through the search
for it is how large a decimal it can find. On each grid it looks at the two points next
to the number and no others, so what it finds lies within a step of the number, and it
never finds zero, as zero reads back to nothing else. For singles that makes a decimal of
forty places at most before its point, `shortest_spec`.
-/

namespace Linework.Decimal

theorem width_pos (n : Nat) : 0 < width n := Nat.length_toDigits_pos

theorem width_le_iff {n k : Nat} (hk : 0 < k) : width n ≤ k ↔ n < 10 ^ k :=
  Nat.length_toDigits_le_iff (by decide) hk

/-- A number has one place more than its tenth. -/
theorem width_div_ten {n : Nat} (h : 10 ≤ n) : width n = width (n / 10) + 1 := by
  unfold width
  rw [Nat.toDigits_of_base_le (by decide) h, List.length_append]
  rfl

namespace Neighbourhood

variable {h : Neighbourhood} {tie : Tie}

theorem quarter_pos (h : Neighbourhood) (k : Int) : 0 < h.quarter k :=
  Nat.mul_pos (Nat.pow_pos (by decide)) (Nat.pow_pos (by decide))

theorem spacing_pos (h : Neighbourhood) (k : Int) : 0 < h.spacing k :=
  Nat.mul_pos (Nat.pow_pos (by decide)) (Nat.pow_pos (by decide))

/-- The grid point just below a number, or the number itself. -/
def floor (h : Neighbourhood) (k : Int) : Nat := 4 * h.units * h.quarter k / h.spacing k

/-- Zero reads back to nothing else. -/
theorem contains_zero (hunits : h.units ≠ 0) (hbelow : h.below ≤ 2) (k : Int) :
    h.contains k 0 = false := by
  have hlow : 0 < (4 * h.units - h.below) * h.quarter k :=
    Nat.mul_pos (by omega) (h.quarter_pos k)
  unfold contains
  dsimp only
  rw [Nat.zero_mul]
  split
  · exact decide_eq_false (by omega)
  · exact decide_eq_false (by omega)

/-- A grid is tried with the two points next to the number. -/
theorem of_onGrid? (hunits : h.units ≠ 0) (hbelow : h.below ≤ 2) {k : Int} {c : Nat}
    (hc : h.onGrid? tie k = some c) : c ≠ 0 ∧ c ≤ h.floor k + 1 := by
  have hzero := contains_zero hunits hbelow k
  have hdown : h.contains k (h.floor k) = true → h.floor k ≠ 0 := by
    intro hcontains hfloor
    rw [hfloor, hzero] at hcontains
    cases hcontains
  unfold onGrid? at hc
  dsimp only at hc
  rw [← floor] at hc
  split at hc
  · next hboth =>
    have hne := hdown (Bool.and_eq_true_iff.1 hboth).1
    split at hc
    · cases hc
      exact ⟨hne, Nat.le_succ _⟩
    · split at hc
      · cases hc
        exact ⟨Nat.succ_ne_zero _, Nat.le_refl _⟩
      · -- a dead heat: the even one of the two, or the greater
        cases tie with
        | toEven =>
          cases hc
          exact ⟨fun hzero => hne (Nat.eq_zero_of_add_eq_zero_right hzero), by omega⟩
        | away =>
          cases hc
          exact ⟨Nat.succ_ne_zero _, Nat.le_refl _⟩
  · split at hc
    · next hcontains =>
      cases hc
      exact ⟨hdown hcontains, Nat.le_succ _⟩
    · split at hc
      · cases hc
        exact ⟨Nat.succ_ne_zero _, Nat.le_refl _⟩
      · cases hc

/-- **The search** goes down the grids, and ends on one of them next to the number. It
finds zero only if the last grid has nothing below the number. -/
theorem coarsest_spec (tie : Tie) (hunits : h.units ≠ 0) (hbelow : h.below ≤ 2) (n : Nat)
    (k : Int) :
    k - n ≤ (h.coarsest tie n k).exponent ∧ (h.coarsest tie n k).exponent ≤ k ∧
      (h.coarsest tie n k).digits ≤ h.floor (h.coarsest tie n k).exponent + 1 ∧
      ((h.coarsest tie n k).digits = 0 → h.floor (k - n) = 0) := by
  induction n generalizing k with
  | zero =>
    rw [coarsest, ← floor, Int.natCast_zero, Int.sub_zero]
    exact ⟨Int.le_refl k, Int.le_refl k, Nat.le_succ _, id⟩
  | succ n ih =>
    rw [coarsest]
    cases hgrid : h.onGrid? tie k with
    | some c =>
      obtain ⟨hne, hle⟩ := of_onGrid? hunits hbelow hgrid
      exact ⟨Int.sub_le_self k (Int.natCast_nonneg _), Int.le_refl k, hle,
        fun hzero => absurd hzero hne⟩
    | none =>
      obtain ⟨hleast, hgreatest, hle, hzero⟩ := ih (k - 1)
      have hlast : k - 1 - n = k - (n + 1 : Nat) := by omega
      rw [hlast] at hleast hzero
      exact ⟨hleast, by dsimp only; omega, hle, hzero⟩

/-- The last grid has a point below the number, if not the number itself. -/
theorem floor_ne_zero (hunits : h.units ≠ 0) : h.floor (min h.exponent 0) ≠ 0 := by
  have hstep : h.spacing (min h.exponent 0) ≤ 4 * h.quarter (min h.exponent 0) := by
    generalize hplaces : (-min h.exponent 0).toNat = places
    calc h.spacing (min h.exponent 0)
        = 2 ^ (2 - h.exponent).toNat * 10 ^ (min h.exponent 0).toNat := rfl
      _ = 2 ^ (2 - h.exponent).toNat := by
        rw [show (min h.exponent 0).toNat = 0 by omega, Nat.pow_zero, Nat.mul_one]
      _ ≤ 2 ^ (2 + places) := Nat.pow_le_pow_right (by decide) (by omega)
      _ = 4 * 2 ^ places := Nat.pow_add 2 2 places
      _ ≤ 4 * 10 ^ places := Nat.mul_le_mul_left 4 (Nat.pow_le_pow_left (by decide) places)
      _ ≤ 4 * h.quarter (min h.exponent 0) := by
        rw [quarter, hplaces]
        exact Nat.mul_le_mul_left 4 (Nat.le_mul_of_pos_left _ (Nat.pow_pos (by decide)))
  refine Nat.ne_of_gt (Nat.div_pos (Nat.le_trans hstep ?_) (h.spacing_pos _))
  rw [Nat.mul_assoc, Nat.mul_left_comm]
  exact Nat.le_mul_of_pos_left _ (Nat.pos_of_ne_zero hunits)

/-- A single has thirty-nine places at most before its point, some of which a coarse grid
takes up and a fine one adds to. -/
theorem floor_lt (hunits : h.units < 2 ^ 24) (hexponent : h.exponent ≤ 104) {k : Int}
    (hk : k ≤ 39) : h.floor k < 10 ^ (39 - k).toNat := by
  have hcentre : 4 * h.units * h.quarter k < 10 ^ (39 - k).toNat * 10 ^ k.toNat :=
    calc 4 * h.units * h.quarter k
        = 4 * h.units * 2 ^ (h.exponent - 2).toNat * 10 ^ (-k).toNat := by
          rw [quarter, ← Nat.mul_assoc]
          rfl
      _ ≤ 4 * h.units * 2 ^ 102 * 10 ^ (-k).toNat :=
          Nat.mul_le_mul_right _ (Nat.mul_le_mul_left _
            (Nat.pow_le_pow_right (by decide) (by omega)))
      _ < 10 ^ 39 * 10 ^ (-k).toNat :=
          Nat.mul_lt_mul_of_pos_right (by omega) (Nat.pow_pos (by decide))
      _ = 10 ^ (39 - k).toNat * 10 ^ k.toNat := by
          rw [← Nat.pow_add, ← Nat.pow_add]
          exact congrArg _ (by omega)
  refine Nat.div_lt_of_lt_mul (Nat.lt_of_lt_of_le hcentre ?_)
  rw [Nat.mul_comm]
  refine Nat.mul_le_mul_right _ ?_
  exact Nat.le_mul_of_pos_left _ (Nat.pow_pos (by decide))

end Neighbourhood

/-- Dropping final zeros changes nothing but the last place. -/
theorem trim_spec (n : Nat) {d : Decimal} (hd : d.digits ≠ 0) :
    (shortest.trim n d).digits ≠ 0 ∧ (shortest.trim n d).leadingExponent = d.leadingExponent := by
  induction n generalizing d with
  | zero => exact ⟨hd, rfl⟩
  | succ n ih =>
    rw [shortest.trim]
    by_cases hten : d.digits % 10 = 0
    · rw [if_pos hten]
      have hwidth := width_div_ten (n := d.digits) (by omega)
      obtain ⟨hne, hleading⟩ := @ih ⟨d.digits / 10, d.exponent + 1⟩ (by dsimp only; omega)
      refine ⟨hne, hleading.trans ?_⟩
      unfold leadingExponent
      dsimp only
      omega
    · rw [if_neg hten]
      exact ⟨hd, rfl⟩

/-- **A shortest decimal is not zero**, unless it is that of zero, and has forty places at
most before its point. -/
theorem shortest_spec (tie : Tie) {units : Nat} {exponent : Int} (hpos : units ≠ 0)
    (hunits : units < 2 ^ 24) (hexponent : exponent ≤ 104) :
    (shortest .single tie units exponent).digits ≠ 0 ∧
      (shortest .single tie units exponent).leadingExponent < 40 := by
  unfold shortest
  rw [if_neg hpos]
  dsimp only
  generalize hwhole : units * Nat.pow 2 exponent.toNat / Nat.pow 2 (-exponent).toNat = whole
  have htop : width whole ≤ 39 := by
    rw [width_le_iff (by decide), ← hwhole]
    calc units * 2 ^ exponent.toNat / 2 ^ (-exponent).toNat
        ≤ units * 2 ^ exponent.toNat := Nat.div_le_self _ _
      _ ≤ units * 2 ^ 104 :=
        Nat.mul_le_mul_left _ (Nat.pow_le_pow_right (by decide) (by omega))
      _ < 10 ^ 39 := by omega
  generalize hparts : Neighbourhood.ofParts .single units exponent = parts
  have hbelow : parts.below ≤ 2 := by
    rw [← hparts, Neighbourhood.ofParts]
    dsimp only
    split <;> decide
  have hparts_units : parts.units = units := by rw [← hparts]; rfl
  have hparts_exponent : parts.exponent = exponent := by rw [← hparts]; rfl
  obtain ⟨-, hgreatest, hnext, hzero⟩ := Neighbourhood.coarsest_spec tie
    (hparts_units ▸ hpos) hbelow (width whole - min exponent 0).toNat (width whole)
  have hlast : (width whole : Int) - ((width whole - min exponent 0).toNat : Nat) =
      min parts.exponent 0 := by omega
  rw [hlast] at hzero
  generalize parts.coarsest tie (width whole - min exponent 0).toNat (width whole) = found
    at hgreatest hnext hzero ⊢
  have hne : found.digits ≠ 0 := fun h =>
    Neighbourhood.floor_ne_zero (hparts_units ▸ hpos) (hzero h)
  obtain ⟨htrimmed, hleading⟩ := trim_spec (width found.digits) hne
  refine ⟨htrimmed, ?_⟩
  rw [hleading, leadingExponent]
  have hfloor := Neighbourhood.floor_lt (hparts_units ▸ hunits) (hparts_exponent ▸ hexponent)
    (Int.le_trans hgreatest (Int.ofNat_le.2 htop))
  have hdigits : found.digits < 10 ^ ((39 - found.exponent).toNat + 1) := by
    rw [Nat.pow_succ]
    omega
  have hwidth := (width_le_iff (Nat.succ_pos _)).2 hdigits
  omega

end Linework.Decimal
