import Linework.Color
import Linework.Proofs.Hue

/-!
# Brightening multiplies the channels

A colour is brightened by way of its hue: the value is multiplied and stops at one, and
the channels are made anew from it. All of that is a detour. Whatever the sector, the
channels are proportional to the value (`Hsv.toRgb_scaled`), and with the old value they
are the old channels, so each of them is multiplied by the same number. That number is
the multiplier, or as much of it as the largest channel can take: `Color.gain`.

It takes that no two channels of a colour are so close that they count as equal. They
are not, because they are whole numbers of steps, and a step is wider than that.
-/

namespace Linework

/-! ## Channels are proportional to the value -/

/-- A colour with all its channels multiplied. -/
def Rgb.scaled (c : Rgb ℚ) (k : ℚ) : Rgb ℚ := ⟨c.red * k, c.green * k, c.blue * k⟩

theorem Rgb.level_scaled (c : Rgb ℚ) (k : ℚ) (i : Primary) :
    (c.scaled k).level i = c.level i * k := by
  cases i <;> rfl

theorem Rgb.sector_scaled {n : ℕ} (hn : n < 6) (v p f k : ℚ) :
    sector n (v * k) (p * k) f = (sector n v p f).scaled k := by
  have hrise : p * k + (v * k - p * k) * f = (p + (v - p) * f) * k := by ring
  have hfall : v * k - (v * k - p * k) * f = (v - (v - p) * f) * k := by ring
  interval_cases n <;> simp only [sector, scaled, hrise, hfall]

/-- **The value multiplies every channel**, grey or not and in any sector. -/
theorem Hsv.toRgb_scaled (h s v k : ℚ) : toRgb ⟨h, s, v * k⟩ = (toRgb ⟨h, s, v⟩).scaled k := by
  rcases le_or_gt s Scalar.epsilon with hs | hs
  · rw [toRgb_of_le hs, toRgb_of_le hs]
    rfl
  · obtain ⟨n, hn, f, hf, hh⟩ := exists_sector h
    rw [toRgb_eq_sector hs hn hf hh, toRgb_eq_sector hs hn hf hh, mul_right_comm v k,
      Rgb.sector_scaled hn]

namespace Color

/-! ## Channels of eight bits -/

/-- How much of a light there is in a colour, in 255 steps. -/
def level (c : Color) : Primary → UInt8
  | .red => c.r
  | .green => c.g
  | .blue => c.b

theorem ext_level {c d : Color} (h : ∀ i, c.level i = d.level i) (ha : c.a = d.a) : c = d := by
  obtain ⟨r, g, b, a⟩ := c
  obtain ⟨r', g', b', a'⟩ := d
  rw [mk.injEq]
  exact ⟨h .red, h .green, h .blue, ha⟩

/-- The largest channel of a colour, opacity apart. -/
def peak (c : Color) : ℕ := max (max c.r.toNat c.g.toNat) c.b.toNat

/-- The channels of a colour as fractions of one. -/
def fractions (c : Color) : Rgb ℚ := ⟨fraction c.r, fraction c.g, fraction c.b⟩

theorem level_fractions (c : Color) (i : Primary) :
    c.fractions.level i = (c.level i).toNat / 255 := by
  cases i <;> rfl

theorem largest_fractions (c : Color) : c.fractions.largest = c.peak / 255 := by
  show max (max ((c.r.toNat : ℚ) / 255) (c.g.toNat / 255)) (c.b.toNat / 255) = _
  rw [max_div_div_right (by norm_num), max_div_div_right (by norm_num), peak, Nat.cast_max,
    Nat.cast_max]

theorem toNat_level_le_peak (c : Color) (i : Primary) : (c.level i).toNat ≤ c.peak := by
  have h := c.fractions.level_le_largest i
  rw [level_fractions, largest_fractions, div_le_div_iff_of_pos_right (by norm_num)] at h
  exact_mod_cast h

theorem exists_toNat_level_eq_peak (c : Color) : ∃ i, (c.level i).toNat = c.peak := by
  obtain ⟨i, h⟩ := c.fractions.exists_level_eq_largest
  rw [level_fractions, largest_fractions, div_left_inj' (by norm_num)] at h
  exact ⟨i, by exact_mod_cast h⟩

theorem peak_le (c : Color) : c.peak ≤ 255 := by
  obtain ⟨i, h⟩ := c.exists_toNat_level_eq_peak
  have := (c.level i).toNat_lt
  omega

/-- The channels of a colour are equal, or apart by a step at least. -/
theorem range_fractions (c : Color) :
    c.fractions.range = 0 ∨ Scalar.epsilon < c.fractions.range := by
  obtain ⟨i, hi⟩ := c.fractions.exists_level_eq_largest
  obtain ⟨j, hj⟩ := c.fractions.exists_level_eq_smallest
  have hle := c.fractions.smallest_le_level i
  rw [Rgb.range, ← hi, ← hj]
  rw [← hj, level_fractions, level_fractions, div_le_div_iff_of_pos_right (by norm_num),
    Nat.cast_le] at hle
  rw [level_fractions, level_fractions]
  rcases hle.eq_or_lt with heq | hlt
  · exact .inl (by rw [heq, sub_self])
  · have hstep : ((c.level j).toNat : ℚ) + 1 ≤ (c.level i).toNat := by exact_mod_cast hlt
    refine .inr ?_
    rw [Scalar.epsilon_rat]
    linarith

/-- **The channels of a colour come back** from its hue, saturation and value. -/
theorem toRgb_toHsv_fractions (c : Color) : c.fractions.toHsv.toRgb = c.fractions := by
  refine Rgb.toRgb_toHsv ?_ ?_ c.range_fractions
  · obtain ⟨i, hi⟩ := c.fractions.exists_level_eq_smallest
    rw [← hi, level_fractions]
    positivity
  · have hpeak : (c.peak : ℚ) ≤ 255 := by exact_mod_cast c.peak_le
    rw [largest_fractions]
    linarith

/-- A fraction of one as a channel: 255 times as much, half up. -/
theorem toNat_channel {x : ℚ} (hx : 0 ≤ x) (hx' : x ≤ 1) :
    ((channel x).toNat : ℤ) = ⌊x * 255 + 1 / 2⌋ := by
  have hclamp : Scalar.clamp x (Scalar.ofNat 0) (Scalar.ofNat 1) = x :=
    Scalar.clamp_rat (by simpa using hx) (by simpa using hx')
  have hround : (Scalar.toNat (Scalar.round (x * 255)) : ℤ) = ⌊x * 255 + 1 / 2⌋ :=
    Scalar.toNat_round_rat (by linarith)
  have hfloor : ⌊x * 255 + 1 / 2⌋ < 256 := by
    rw [Int.floor_lt]
    push_cast
    linarith
  have hlt : Scalar.toNat (Scalar.round (x * 255)) < UInt8.size := by
    show _ < 256
    omega
  rw [channel, hclamp, Scalar.ofNat_rat, Nat.cast_ofNat, min_eq_left (Nat.le_of_lt_succ hlt),
    UInt8.toNat_ofNat_of_lt' hlt, hround]

/-! ## Brightening -/

/-- What the channels of a colour are multiplied by when its value is: the multiplier, or
as much of it as takes the largest channel to its full height. -/
def gain (c : Color) (m : ℚ) : ℚ := if c.peak = 0 then m else min m (255 / c.peak)

theorem gain_nonneg (c : Color) {m : ℚ} (hm : 0 ≤ m) : 0 ≤ c.gain m := by
  rw [gain]
  split
  · exact hm
  · exact le_min hm (by positivity)

theorem gain_mono (c : Color) {m m' : ℚ} (h : m ≤ m') : c.gain m ≤ c.gain m' := by
  rw [gain, gain]
  split
  · exact h
  · exact min_le_min_right _ h

/-- A value that stops at one is the old value, multiplied by the gain. -/
theorem largest_mul_gain (c : Color) (m : ℚ) :
    c.fractions.largest * c.gain m = min (c.fractions.largest * m) 1 := by
  rw [largest_fractions, gain]
  split
  · next h => simp [h]
  · next h =>
    have hpeak : (c.peak : ℚ) ≠ 0 := Nat.cast_ne_zero.2 h
    rw [mul_min_of_nonneg _ _ (by positivity)]
    congr 1
    field_simp

/-- **Brightening multiplies each channel by the gain.** -/
theorem level_brighten (c : Color) (m : ℚ) (i : Primary) :
    (c.brighten m).level i = channel (c.fractions.level i * c.gain m) := by
  -- the value is the largest channel, so the new one is the old one times the gain
  have hrgb : Hsv.toRgb { c.fractions.toHsv with
      value := Scalar.minNum (c.fractions.toHsv.value * m) (Scalar.ofNat 1) } =
        c.fractions.scaled (c.gain m) := by
    rw [Scalar.minNum_rat, Scalar.ofNat_rat, Nat.cast_one, Rgb.value_toHsv, ← largest_mul_gain,
      Hsv.toRgb_scaled, ← Rgb.value_toHsv, toRgb_toHsv_fractions]
  rw [← Rgb.level_scaled, ← hrgb]
  cases i <;> rfl

theorem toNat_level_brighten (c : Color) {m : ℚ} (hm : 0 ≤ m) (i : Primary) :
    (((c.brighten m).level i).toNat : ℤ) = ⌊((c.level i).toNat : ℚ) * c.gain m + 1 / 2⌋ := by
  have hpos : 0 ≤ c.fractions.level i := by
    rw [level_fractions]
    positivity
  have hone : c.fractions.level i * c.gain m ≤ 1 := calc
    c.fractions.level i * c.gain m ≤ c.fractions.largest * c.gain m :=
      mul_le_mul_of_nonneg_right (c.fractions.level_le_largest i) (c.gain_nonneg hm)
    _ ≤ 1 := by
      rw [largest_mul_gain]
      exact min_le_right _ _
  rw [level_brighten, toNat_channel (mul_nonneg hpos (c.gain_nonneg hm)) hone, level_fractions]
  congr 2
  ring

/-- A whole number is not rounded. -/
theorem floor_natCast_add_half (n : ℕ) : ⌊(n : ℚ) + 1 / 2⌋ = (n : ℤ) := by
  rw [Int.floor_natCast_add, show ⌊(1 / 2 : ℚ)⌋ = 0 from Int.floor_eq_zero_iff.2 (by norm_num),
    add_zero]

theorem gain_one (c : Color) : c.gain 1 = 1 := by
  rw [gain]
  split
  · rfl
  · next h =>
    have hpos : (0 : ℚ) < c.peak := Nat.cast_pos.2 (Nat.pos_of_ne_zero h)
    have hpeak : (c.peak : ℚ) ≤ 255 := by exact_mod_cast c.peak_le
    exact min_eq_left ((one_le_div hpos).2 hpeak)

/-- A multiplier that would take the largest channel too far takes it to its full
height. -/
theorem gain_of_le {c : Color} {m : ℚ} (hpos : 0 < c.peak) (hm : 255 ≤ m * c.peak) :
    c.gain m = 255 / c.peak := by
  have hpos' : (0 : ℚ) < c.peak := Nat.cast_pos.2 hpos
  rw [gain, if_neg hpos.ne', min_eq_right ((div_le_iff₀ hpos').2 hm)]

/-- **Brightening is one multiplication per channel**, rounded half up, and the opacity
stays. The number multiplied by is the multiplier, or 255 divided by the largest channel
where that is less. So a multiplier of one changes nothing, a greater multiplier makes no
channel smaller, channels keep their order, and a multiplier that takes the largest
channel to 255 or beyond makes it 255. -/
theorem brighten_eq_round_gain (c : Color) :
    (∀ m : ℚ, 0 ≤ m →
      (∀ i, (((c.brighten m).level i).toNat : ℤ) =
        ⌊((c.level i).toNat : ℚ) * c.gain m + 1 / 2⌋) ∧ (c.brighten m).a = c.a) ∧
    c.brighten (1 : ℚ) = c ∧
    (∀ m m' : ℚ, 0 ≤ m → m ≤ m' → ∀ i, (c.brighten m).level i ≤ (c.brighten m').level i) ∧
    (∀ m : ℚ, 0 ≤ m → ∀ i j, c.level i ≤ c.level j →
      (c.brighten m).level i ≤ (c.brighten m).level j) ∧
    ∀ m : ℚ, 0 ≤ m → 0 < c.peak → 255 ≤ m * c.peak →
      (c.brighten m).peak = 255 ∧
        ∀ i, (c.level i).toNat = c.peak → (c.brighten m).level i = 255 := by
  refine ⟨fun m hm => ⟨c.toNat_level_brighten hm, rfl⟩, ?_, ?_, ?_, ?_⟩
  · refine ext_level (fun i => UInt8.toNat_inj.1 ?_) rfl
    have h := c.toNat_level_brighten zero_le_one i
    rw [gain_one, mul_one, floor_natCast_add_half] at h
    exact_mod_cast h
  · intro m m' hm hmm' i
    rw [UInt8.le_iff_toNat_le, ← Int.ofNat_le, c.toNat_level_brighten hm,
      c.toNat_level_brighten (hm.trans hmm')]
    have hgain := c.gain_mono hmm'
    gcongr
  · intro m hm i j hij
    have hij' : ((c.level i).toNat : ℚ) ≤ (c.level j).toNat := by
      exact_mod_cast UInt8.le_iff_toNat_le.1 hij
    have hgain := c.gain_nonneg hm
    rw [UInt8.le_iff_toNat_le, ← Int.ofNat_le, c.toNat_level_brighten hm,
      c.toNat_level_brighten hm]
    gcongr
  · intro m hm hpos hfull
    have hlevel : ∀ i, (c.level i).toNat = c.peak → (c.brighten m).level i = 255 := by
      intro i hi
      have h := c.toNat_level_brighten hm i
      have hpeak : (c.peak : ℚ) ≠ 0 := Nat.cast_ne_zero.2 hpos.ne'
      rw [hi, gain_of_le hpos hfull, mul_div_cancel₀ _ hpeak] at h
      exact UInt8.toNat_inj.1 (by exact_mod_cast h.trans (floor_natCast_add_half 255))
    refine ⟨?_, hlevel⟩
    obtain ⟨i, hi⟩ := c.exists_toNat_level_eq_peak
    have hle := (c.brighten m).toNat_level_le_peak i
    rw [hlevel i hi] at hle
    exact le_antisymm (peak_le _) hle

/-- An orange can take less than half as much again. The gain is 51/40, by which red is
full and green comes to lie half way between two steps. -/
theorem brighten_orange :
    0 ≤ (3 / 2 : ℚ) ∧ (⟨200, 100, 3, 128⟩ : Color).brighten (3 / 2 : ℚ) = ⟨255, 128, 4, 128⟩ := by
  have hm : 0 ≤ (3 / 2 : ℚ) := by norm_num
  have hgain : gain ⟨200, 100, 3, 128⟩ (3 / 2) = 51 / 40 := by decide +kernel
  obtain ⟨hlevel, ha⟩ := (brighten_eq_round_gain ⟨200, 100, 3, 128⟩).1 (3 / 2) hm
  refine ⟨hm, ext_level (fun i => UInt8.toNat_inj.1 (Int.ofNat_inj.1 ?_)) ha⟩
  rw [hlevel i, hgain]
  cases i <;> decide +kernel

end Color

end Linework
