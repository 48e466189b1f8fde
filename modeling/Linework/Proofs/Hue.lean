import Mathlib.Tactic.FieldSimp
import Mathlib.Tactic.IntervalCases
import Linework.Color.Hsv
import Linework.Proofs.Exact

/-!
# Colours come back from their hues

Over exact numbers the channels of a colour and its hue, saturation and value say the
same thing. Neither conversion is easy to read: one asks which channel is the largest,
red before green before blue, the other cuts the circle of hues into six sectors, and
where channels tie the two do not cut at the same place.

What they have in common is the sector. `Rgb.sector n v p f` is the colour at the
fraction `f` of sector `n`: one channel is at the top `v`, one at the bottom `p`, and
the third has gone the fraction `f` of the way, up in the even sectors and down in the
odd ones. A fraction is at least zero and less than one, so every colour that is not
grey is in one sector only (`Rgb.exists_sector`). Its position on the circle is `n + f`
sixths of a turn, whichever branch has computed it (`Rgb.toHsv_sector`), and a hue at
that position gives the sector back (`Hsv.toRgb_eq_sector`). Going there and back either
way is one of these after the other.
-/

namespace Linework

/-- The three lights a colour is mixed from. -/
inductive Primary where
  /-- Red. -/
  | red
  /-- Green. -/
  | green
  /-- Blue. -/
  | blue
  deriving DecidableEq, Repr

namespace Rgb

/-- How much of a light there is in a colour. -/
def level {α : Type} (c : Rgb α) : Primary → α
  | .red => c.red
  | .green => c.green
  | .blue => c.blue

theorem ext_level {α : Type} {c d : Rgb α} (h : ∀ i, c.level i = d.level i) : c = d := by
  obtain ⟨r, g, b⟩ := c
  obtain ⟨r', g', b'⟩ := d
  rw [mk.injEq]
  exact ⟨h .red, h .green, h .blue⟩

/-- The largest channel of a colour. -/
def largest (c : Rgb ℚ) : ℚ := max (max c.red c.green) c.blue

/-- The smallest channel of a colour. -/
def smallest (c : Rgb ℚ) : ℚ := min (min c.red c.green) c.blue

/-- How far the channels of a colour are apart. -/
def range (c : Rgb ℚ) : ℚ := c.largest - c.smallest

theorem level_le_largest (c : Rgb ℚ) : ∀ i, c.level i ≤ c.largest
  | .red => (le_max_left _ _).trans (le_max_left _ _)
  | .green => (le_max_right _ _).trans (le_max_left _ _)
  | .blue => le_max_right _ _

theorem smallest_le_level (c : Rgb ℚ) : ∀ i, c.smallest ≤ c.level i
  | .red => (min_le_left _ _).trans (min_le_left _ _)
  | .green => (min_le_left _ _).trans (min_le_right _ _)
  | .blue => min_le_right _ _

theorem exists_level_eq_largest (c : Rgb ℚ) : ∃ i, c.level i = c.largest := by
  rw [largest]
  rcases max_choice (max c.red c.green) c.blue with h | h
  · rcases max_choice c.red c.green with h' | h'
    · exact ⟨.red, by rw [h, h']; rfl⟩
    · exact ⟨.green, by rw [h, h']; rfl⟩
  · exact ⟨.blue, h.symm⟩

theorem exists_level_eq_smallest (c : Rgb ℚ) : ∃ i, c.level i = c.smallest := by
  rw [smallest]
  rcases min_choice (min c.red c.green) c.blue with h | h
  · rcases min_choice c.red c.green with h' | h'
    · exact ⟨.red, by rw [h, h']; rfl⟩
    · exact ⟨.green, by rw [h, h']; rfl⟩
  · exact ⟨.blue, h.symm⟩

/-! ## From channels to hues -/

/-- Where on the circle of hues a colour is, in sixths of a turn. -/
def position (c : Rgb ℚ) : ℚ :=
  if c.largest = c.red then (c.green - c.blue) / c.range + if c.green < c.blue then 6 else 0
  else if c.largest = c.green then (c.blue - c.red) / c.range + 2
  else (c.red - c.green) / c.range + 4

theorem toHsv_of_range_le {c : Rgb ℚ} (h : c.range ≤ Scalar.epsilon) :
    c.toHsv = ⟨0, 0, c.largest⟩ := by
  simp only [toHsv, Scalar.maxNum_rat, Scalar.minNum_rat]
  exact if_pos h

theorem toHsv_of_lt_range {c : Rgb ℚ} (h : Scalar.epsilon < c.range) :
    c.toHsv = ⟨c.position / 6, c.range / c.largest, c.largest⟩ := by
  simp only [toHsv, Scalar.maxNum_rat, Scalar.minNum_rat, Scalar.ofNat_rat, beq_iff_eq]
  exact if_neg (not_le.2 h)

/-- The value of a colour is its largest channel, grey or not. -/
theorem value_toHsv (c : Rgb ℚ) : c.toHsv.value = c.largest := by
  rcases le_or_gt c.range Scalar.epsilon with h | h
  · rw [toHsv_of_range_le h]
  · rw [toHsv_of_lt_range h]

/-! ## Sectors -/

/-- The colour at a fraction of a sector, between a bottom and a top. -/
def sector (n : ℕ) (v p f : ℚ) : Rgb ℚ :=
  match n with
  | 0 => ⟨v, p + (v - p) * f, p⟩
  | 1 => ⟨v - (v - p) * f, v, p⟩
  | 2 => ⟨p, v, p + (v - p) * f⟩
  | 3 => ⟨p, v - (v - p) * f, v⟩
  | 4 => ⟨p + (v - p) * f, p, v⟩
  | _ => ⟨v, p, v - (v - p) * f⟩

theorem exists_rising {v p x : ℚ} (hp : p ≤ x) (hv : x < v) :
    ∃ f ∈ Set.Ico (0 : ℚ) 1, p + (v - p) * f = x := by
  have hpos : 0 < v - p := sub_pos.2 (hp.trans_lt hv)
  refine ⟨(x - p) / (v - p), ⟨div_nonneg (sub_nonneg.2 hp) hpos.le, ?_⟩, ?_⟩
  · rw [div_lt_one hpos]
    exact sub_lt_sub_right hv p
  · rw [mul_div_cancel₀ _ hpos.ne', add_sub_cancel]

theorem exists_falling {v p x : ℚ} (hp : p < x) (hv : x ≤ v) :
    ∃ f ∈ Set.Ico (0 : ℚ) 1, v - (v - p) * f = x := by
  have hpos : 0 < v - p := sub_pos.2 (hp.trans_le hv)
  refine ⟨(v - x) / (v - p), ⟨div_nonneg (sub_nonneg.2 hv) hpos.le, ?_⟩, ?_⟩
  · rw [div_lt_one hpos]
    exact sub_lt_sub_left hp v
  · rw [mul_div_cancel₀ _ hpos.ne', sub_sub_cancel]

/-- **Every colour that is not grey is in a sector.** A sector has its first colour and
not its last, so it says of the middle channel on which side it may tie. -/
theorem exists_sector {c : Rgb ℚ} (h : c.smallest < c.largest) :
    ∃ n < 6, ∃ v p f : ℚ, p < v ∧ f ∈ Set.Ico 0 1 ∧ c = sector n v p f := by
  obtain ⟨r, g, b⟩ := c
  -- blue is not above green in sectors 0 to 2, and in 3 where they tie
  rcases le_or_gt b g with hbg | hgb
  · rcases lt_or_ge g r with hgr | hrg
    · obtain ⟨f, hf, hg⟩ := exists_rising hbg hgr
      exact ⟨0, by decide, r, b, f, hbg.trans_lt hgr, hf, by rw [← hg]; rfl⟩
    · rcases lt_or_ge b r with hbr | hrb
      · obtain ⟨f, hf, hr⟩ := exists_falling hbr hrg
        exact ⟨1, by decide, g, b, f, hbr.trans_le hrg, hf, by rw [← hr]; rfl⟩
      · rcases lt_or_ge b g with hbg' | hgb
        · obtain ⟨f, hf, hb⟩ := exists_rising hrb hbg'
          exact ⟨2, by decide, g, r, f, hrb.trans_lt hbg', hf, by rw [← hb]; rfl⟩
        · -- green and blue are equal, and red is not, or the colour would be grey
          have hrg' : r < g := by
            refine hrg.lt_of_ne fun heq => h.ne ?_
            simp [smallest, largest, heq, le_antisymm hbg hgb]
          obtain ⟨f, hf, hg⟩ := exists_falling hrg' hgb
          exact ⟨3, by decide, b, r, f, hrg'.trans_le hgb, hf, by rw [← hg]; rfl⟩
  · rcases le_or_gt b r with hbr | hrb
    · obtain ⟨f, hf, hb⟩ := exists_falling hgb hbr
      exact ⟨5, by decide, r, g, f, hgb.trans_le hbr, hf, by rw [← hb]; rfl⟩
    · rcases le_or_gt g r with hgr | hrg
      · obtain ⟨f, hf, hr⟩ := exists_rising hgr hrb
        exact ⟨4, by decide, b, g, f, hgr.trans_lt hrb, hf, by rw [← hr]; rfl⟩
      · obtain ⟨f, hf, hg⟩ := exists_falling hrg hgb.le
        exact ⟨3, by decide, b, r, f, hrg.trans hgb, hf, by rw [← hg]; rfl⟩

section Sector

variable {n : ℕ} {v p f : ℚ}

theorem rising_mem (h : p < v) (hf : f ∈ Set.Ico 0 1) : p + (v - p) * f ∈ Set.Ico p v := by
  have hpos : 0 < v - p := sub_pos.2 h
  constructor
  · exact le_add_of_nonneg_right (mul_nonneg hpos.le hf.1)
  · linarith [mul_lt_of_lt_one_right hpos hf.2]

theorem falling_mem (h : p < v) (hf : f ∈ Set.Ico 0 1) : v - (v - p) * f ∈ Set.Ioc p v := by
  have hpos : 0 < v - p := sub_pos.2 h
  constructor
  · linarith [mul_lt_of_lt_one_right hpos hf.2]
  · exact sub_le_self v (mul_nonneg hpos.le hf.1)

/-- The top and the bottom of a sector are the largest and the smallest channel. -/
theorem largest_smallest_sector (hn : n < 6) (h : p < v) (hf : f ∈ Set.Ico 0 1) :
    (sector n v p f).largest = v ∧ (sector n v p f).smallest = p := by
  obtain ⟨hrise, hrise'⟩ := rising_mem h hf
  obtain ⟨hfall, hfall'⟩ := falling_mem h hf
  interval_cases n <;> simp only [sector, largest, smallest] <;> grind

/-- **The position of a colour is its sector and the fraction of it.** In sectors 1 and 3
the first colour has two channels at the top, and then it is the branch of the sector
before that computes it. -/
theorem position_sector (hn : n < 6) (h : p < v) (hf : f ∈ Set.Ico 0 1) :
    (sector n v p f).position = n + f := by
  obtain ⟨hlargest, hsmallest⟩ := largest_smallest_sector hn h hf
  obtain ⟨hrise, hrise'⟩ := rising_mem h hf
  obtain ⟨hfall, hfall'⟩ := falling_mem h hf
  have hne : v - p ≠ 0 := (sub_pos.2 h).ne'
  have hup : (p + (v - p) * f - p) / (v - p) = f := by
    rw [add_sub_cancel_left, mul_div_cancel_left₀ _ hne]
  have hdown : (p - (v - (v - p) * f)) / (v - p) = f - 1 := by
    rw [div_eq_iff hne]
    ring
  have hstart : v - (v - p) * f = v → f = 0 := fun heq =>
    (mul_eq_zero.1 (sub_eq_self.1 heq)).resolve_left hne
  rw [position, range, hlargest, hsmallest]
  -- sector by sector; where two channels may tie at the top, the tie is a case of its own
  interval_cases n
  · simp only [sector]
    rw [if_pos trivial, if_neg (not_lt.2 hrise), hup, Nat.cast_zero, add_comm]
  · simp only [sector]
    rcases hfall'.eq_or_lt with heq | hlt
    · rw [if_pos heq.symm, div_self hne, if_neg (not_lt.2 h.le), hstart heq, Nat.cast_one]
    · rw [if_neg hlt.ne', if_pos trivial, hdown]
      push_cast
      ring
  · simp only [sector]
    rw [if_neg h.ne', if_pos trivial, hup, Nat.cast_ofNat, add_comm]
  · simp only [sector]
    rcases hfall'.eq_or_lt with heq | hlt
    · rw [if_neg h.ne', if_pos heq.symm, div_self hne, hstart heq]
      norm_num
    · rw [if_neg h.ne', if_neg hlt.ne', hdown]
      push_cast
      ring
  · simp only [sector]
    rw [if_neg hrise'.ne', if_neg h.ne', hup, Nat.cast_ofNat, add_comm]
  · simp only [sector]
    rw [if_pos trivial, if_pos hfall, hdown]
    push_cast
    ring

/-- Hue, saturation and value of a colour in a sector. -/
theorem toHsv_sector (hn : n < 6) (h : Scalar.epsilon < v - p) (hf : f ∈ Set.Ico 0 1) :
    (sector n v p f).toHsv = ⟨(n + f) / 6, (v - p) / v, v⟩ := by
  have hlt : p < v := sub_pos.1 (Scalar.epsilon_pos.trans h)
  obtain ⟨hlargest, hsmallest⟩ := largest_smallest_sector hn hlt hf
  have hrange : (sector n v p f).range = v - p := by rw [range, hlargest, hsmallest]
  rw [toHsv_of_lt_range (hrange ▸ h), position_sector hn hlt hf, hrange, hlargest]

/-- A position in a sector is less than a full turn. -/
theorem sixth_mem (hn : n < 6) (hf : f ∈ Set.Ico 0 1) : ((n : ℚ) + f) / 6 ∈ Set.Ico 0 1 := by
  have hn' : (n : ℚ) + 1 ≤ 6 := by exact_mod_cast hn
  have hpos : (0 : ℚ) ≤ n := n.cast_nonneg
  exact ⟨by linarith [hf.1], by linarith [hf.2]⟩

end Sector

end Rgb

/-! ## From hues to channels -/

namespace Hsv

variable {n : ℕ} {h s v f : ℚ}

theorem toRgb_of_le (hs : s ≤ Scalar.epsilon) : toRgb ⟨h, s, v⟩ = ⟨v, v, v⟩ := if_pos hs

/-- **A hue picks the sector it lies in.** The bottom of the sector is as far below the
value as the saturation says. -/
theorem toRgb_eq_sector (hs : Scalar.epsilon < s) (hn : n < 6) (hf : f ∈ Set.Ico 0 1)
    (hh : Int.fract h = (n + f) / 6) : toRgb ⟨h, s, v⟩ = Rgb.sector n v (v * (1 - s)) f := by
  have hturn : Scalar.turn h * Scalar.ofNat 6 = n + f := by
    rw [Scalar.turn_rat, hh, Scalar.ofNat_rat, Nat.cast_ofNat, div_mul_cancel₀ _ (by norm_num)]
  -- sectors are counted in 32 bits and around the circle, and there are only six
  have hword : min n 0xffffffff % 6 = n := by omega
  have hrise : v * (1 - s * (1 - f)) = v * (1 - s) + (v - v * (1 - s)) * f := by ring
  have hfall : v * (1 - s * f) = v - (v - v * (1 - s)) * f := by ring
  simp only [toRgb, if_neg (not_le.2 hs), hturn, Scalar.floor_rat hf, Scalar.toNat_rat, hword,
    add_sub_cancel_left]
  simp only [Scalar.ofNat_rat, Nat.cast_one, hrise, hfall]
  interval_cases n <;> rfl

/-- Every hue lies in a sector, after its whole turns are taken off. -/
theorem exists_sector (h : ℚ) :
    ∃ n < 6, ∃ f ∈ Set.Ico (0 : ℚ) 1, Int.fract h = ((n : ℕ) + f) / 6 := by
  have hpos : 0 ≤ Int.fract h * 6 := mul_nonneg (Int.fract_nonneg h) (by norm_num)
  have hlt : ⌊Int.fract h * 6⌋ < 6 := by
    rw [Int.floor_lt]
    push_cast
    linarith [Int.fract_lt_one h]
  obtain ⟨n, hn⟩ := Int.eq_ofNat_of_zero_le (Int.floor_nonneg.2 hpos)
  refine ⟨n, by omega, Int.fract (Int.fract h * 6),
    ⟨Int.fract_nonneg _, Int.fract_lt_one _⟩, ?_⟩
  have hsplit : (n : ℚ) + Int.fract (Int.fract h * 6) = Int.fract h * 6 := by
    rw [← Int.cast_natCast, ← hn]
    exact Int.floor_add_fract (Int.fract h * 6)
  rw [hsplit, mul_div_cancel_right₀ _ (by norm_num)]

end Hsv

/-! ## There and back -/

/-- From channels to a hue and back, for a colour that is exactly grey or does not count
as grey at all. One that is merely close to grey comes back as the grey of its largest
channel. -/
theorem Rgb.toRgb_toHsv {c : Rgb ℚ} (hpos : 0 ≤ c.smallest) (hone : c.largest ≤ 1)
    (hrange : c.range = 0 ∨ Scalar.epsilon < c.range) : c.toHsv.toRgb = c := by
  rcases hrange with hzero | hlt
  · rw [toHsv_of_range_le (hzero ▸ Scalar.epsilon_pos.le),
      Hsv.toRgb_of_le Scalar.epsilon_pos.le]
    have hlevel : ∀ i, c.level i = c.largest := fun i =>
      le_antisymm (c.level_le_largest i)
        ((sub_eq_zero.1 hzero).le.trans (c.smallest_le_level i))
    refine ext_level fun i => ?_
    rw [hlevel]
    cases i <;> rfl
  · obtain ⟨n, hn, v, p, f, hpv, hf, rfl⟩ :=
      exists_sector (sub_pos.1 (Scalar.epsilon_pos.trans hlt))
    obtain ⟨hlargest, hsmallest⟩ := largest_smallest_sector hn hpv hf
    rw [hsmallest] at hpos
    rw [hlargest] at hone
    rw [range, hlargest, hsmallest] at hlt
    have hv : 0 < v := hpos.trans_lt hpv
    have hs : Scalar.epsilon < (v - p) / v := hlt.trans_le (le_div_self (by linarith) hv hone)
    have hp : v * (1 - (v - p) / v) = p := by
      rw [mul_sub, mul_div_cancel₀ _ hv.ne', mul_one, sub_sub_cancel]
    rw [toHsv_sector hn hlt hf,
      Hsv.toRgb_eq_sector hs hn hf (Int.fract_eq_self.2 (sixth_mem hn hf)), hp]

/-- The hue of a colour is less than a full turn, and its saturation at most one. -/
theorem Rgb.hue_saturation_mem {c : Rgb ℚ} (hpos : 0 ≤ c.smallest) :
    c.toHsv.hue ∈ Set.Ico 0 1 ∧ c.toHsv.saturation ∈ Set.Icc 0 1 := by
  rcases le_or_gt c.range Scalar.epsilon with hle | hlt
  · rw [toHsv_of_range_le hle]
    norm_num
  · obtain ⟨n, hn, v, p, f, hpv, hf, rfl⟩ :=
      exists_sector (sub_pos.1 (Scalar.epsilon_pos.trans hlt))
    obtain ⟨hlargest, hsmallest⟩ := largest_smallest_sector hn hpv hf
    rw [hsmallest] at hpos
    rw [range, hlargest, hsmallest] at hlt
    have hv : 0 < v := hpos.trans_lt hpv
    rw [toHsv_sector hn hlt hf]
    exact ⟨sixth_mem hn hf, div_nonneg (by linarith) hv.le, (div_le_one hv).2 (by linarith)⟩

/-- **Channels and hues are each other's inverses.** A colour with channels from zero to
one, all equal or further apart than what counts as grey, comes back from its hue,
saturation and value; the hue is less than a full turn and the saturation at most one.
The other way round any hue will do, of either sign and with any number of turns: it
comes back without the whole turns, next to the same saturation and value, as long as
the channels are further apart than grey. The value is then the largest channel, and
the saturation says how far below it the smallest one is. -/
theorem Hsv.toRgb_toHsv_inverse :
    (∀ r g b : ℚ, r ∈ Set.Icc 0 1 → g ∈ Set.Icc 0 1 → b ∈ Set.Icc 0 1 →
      max (max r g) b - min (min r g) b = 0 ∨
        Scalar.epsilon < max (max r g) b - min (min r g) b →
      let hsv := Rgb.toHsv ⟨r, g, b⟩
      hsv.toRgb = ⟨r, g, b⟩ ∧ hsv.hue ∈ Set.Ico 0 1 ∧ hsv.saturation ∈ Set.Icc 0 1) ∧
    ∀ h s v : ℚ, Scalar.epsilon < s → s ≤ 1 → 0 < v → v ≤ 1 → Scalar.epsilon < v * s →
      let rgb := Hsv.toRgb ⟨h, s, v⟩
      rgb.toHsv = ⟨Int.fract h, s, v⟩ ∧ max (max rgb.red rgb.green) rgb.blue = v ∧
        min (min rgb.red rgb.green) rgb.blue = v * (1 - s) := by
  constructor
  · intro r g b hr hg hb hrange hsv
    have hpos : 0 ≤ (Rgb.mk r g b).smallest := le_min (le_min hr.1 hg.1) hb.1
    have hone : (Rgb.mk r g b).largest ≤ 1 := max_le (max_le hr.2 hg.2) hb.2
    exact ⟨Rgb.toRgb_toHsv hpos hone hrange, Rgb.hue_saturation_mem hpos⟩
  · intro h s v hs hs' hv hv' hvs rgb
    obtain ⟨n, hn, f, hf, hh⟩ := exists_sector h
    have hrgb : rgb = Rgb.sector n v (v * (1 - s)) f := toRgb_eq_sector hs hn hf hh
    have hrange : v - v * (1 - s) = v * s := by ring
    have hlt : v * (1 - s) < v := by linarith [Scalar.epsilon_pos]
    refine ⟨?_, ?_⟩
    · rw [hrgb, Rgb.toHsv_sector hn (hrange ▸ hvs) hf, hrange, mul_div_cancel_left₀ _ hv.ne', hh]
    · rw [hrgb]
      exact Rgb.largest_smallest_sector hn hlt hf

/-- Two colours on the border of sectors: a yellow whose red and green tie, and the hue
half a turn backwards, where green and blue do. -/
theorem Hsv.inverse_at_borders :
    (Rgb.toHsv ⟨1, 1, 1 / 2⟩).toRgb = (⟨1, 1, 1 / 2⟩ : Rgb ℚ) ∧
      Scalar.epsilon < (1 * (1 / 2) : ℚ) ∧
      (Hsv.toRgb ⟨-1 / 2, 1 / 2, 1⟩).toHsv = (⟨1 / 2, 1 / 2, 1⟩ : Hsv ℚ) := by
  have heps : Scalar.epsilon < (1 * (1 / 2) : ℚ) := by norm_num [Scalar.epsilon_rat]
  have hrange : Scalar.epsilon < (max (max 1 1) (1 / 2) - min (min 1 1) (1 / 2) : ℚ) := by
    norm_num [Scalar.epsilon_rat]
  have hfract : Int.fract (-1 / 2 : ℚ) = 1 / 2 := Int.fract_eq_iff.2
    ⟨by norm_num, by norm_num, -1, by norm_num⟩
  have hthere := toRgb_toHsv_inverse.1 1 1 (1 / 2) (by norm_num) (by norm_num) (by norm_num)
    (.inr hrange)
  have hback := toRgb_toHsv_inverse.2 (-1 / 2) (1 / 2) 1 (by rwa [one_mul] at heps)
    (by norm_num) one_pos le_rfl heps
  rw [hfract] at hback
  exact ⟨hthere.1, heps, hback.1⟩

end Linework
