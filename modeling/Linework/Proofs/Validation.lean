import Mathlib.Data.List.Basic
import Mathlib.Order.Bounds.Basic
import Linework.Proofs.Primitives

/-!
# Which settings can be drawn with

There is a compiler for settings that meet every condition, and for others there is the
first condition they break. The conditions have an order: segments of circles, segments of
ellipses, that there are passes at all, and then the passes one after another, the width of
each before its brightness. `Settings.FirstFault` says which fault comes first without
looking for it, and `Settings.fault?_eq_some_iff` that the search finds it.

Numbers are compared as they are, so every comparison is about all singles. One that is not
a number breaks any condition on it, as comparing it with zero fails either way, and an
infinite one breaks them because it is asked to be finite. Negative zero is no less than
zero: it is no width, but it is a brightness.
-/

namespace Linework

namespace Pass

/-- **A pass that can be drawn**: its width is finite and positive, its brightness finite and
not negative. -/
def Drawable (p : Pass) : Prop :=
  (p.width.isFinite = true ∧ 0 < p.width) ∧ p.brightness.isFinite = true ∧ 0 ≤ p.brightness

theorem brightnessIsFine_iff (p : Pass) :
    p.brightnessIsFine = true ↔ 0 ≤ p.brightness ∧ p.brightness.isFinite = true := by
  rw [brightnessIsFine, Bool.and_eq_true, decide_eq_true_iff]

theorem drawable_iff (p : Pass) :
    p.Drawable ↔ p.widthIsFine = true ∧ p.brightnessIsFine = true := by
  rw [Drawable, widthIsFine_iff, brightnessIsFine_iff, and_comm (a := 0 < p.width),
    and_comm (a := 0 ≤ p.brightness)]

/-- What is wrong with the pass of a number. Its width comes before its brightness. -/
inductive Faulty (p : Pass) (i : Nat) : SettingsFault → Prop where
  /-- The width is not finite or not positive. -/
  | width : ¬ (p.width.isFinite = true ∧ 0 < p.width) → Faulty p i (.width i p.width)
  /-- The width is all right, and the brightness is not finite or is negative. -/
  | brightness : p.width.isFinite = true ∧ 0 < p.width →
    ¬ (p.brightness.isFinite = true ∧ 0 ≤ p.brightness) →
    Faulty p i (.brightness i p.brightness)

theorem Faulty.not_drawable {p : Pass} {i : Nat} {fault : SettingsFault} (h : p.Faulty i fault) :
    ¬ p.Drawable := by
  intro hdrawable
  cases h with
  | width hwidth => exact hwidth hdrawable.1
  | brightness _ hbrightness => exact hbrightness hdrawable.2

/-- One pass of the search: the first pass is at fault, or it can be drawn and a later one is. -/
theorem fault?_cons_eq_some_iff {i : Nat} {p : Pass} {ps : List Pass} {fault : SettingsFault} :
    fault? i (p :: ps) = some fault ↔
      p.Faulty i fault ∨ p.Drawable ∧ fault? (i + 1) ps = some fault := by
  have hwidth := p.widthIsFine_iff
  have hbrightness := p.brightnessIsFine_iff
  rw [and_comm] at hwidth hbrightness
  rw [fault?]
  cases hw : p.widthIsFine with
  | false =>
    have hnot : ¬ (p.width.isFinite = true ∧ 0 < p.width) := by
      rw [← hwidth, hw]
      exact Bool.false_ne_true
    constructor
    · intro h
      cases h
      exact .inl (.width hnot)
    · rintro (h | ⟨hdrawable, -⟩)
      · cases h with
        | width => rfl
        | brightness hfine => exact absurd hfine hnot
      · exact absurd hdrawable.1 hnot
  | true =>
    have hfine := hwidth.1 hw
    cases hb : p.brightnessIsFine with
    | false =>
      have hnot : ¬ (p.brightness.isFinite = true ∧ 0 ≤ p.brightness) := by
        rw [← hbrightness, hb]
        exact Bool.false_ne_true
      constructor
      · intro h
        cases h
        exact .inl (.brightness hfine hnot)
      · rintro (h | ⟨hdrawable, -⟩)
        · cases h with
          | width hnot => exact absurd hfine hnot
          | brightness => rfl
        · exact absurd hdrawable.2 hnot
    | true =>
      have hdrawable : p.Drawable := ⟨hfine, hbrightness.1 hb⟩
      constructor
      · exact fun h => .inr ⟨hdrawable, h⟩
      · rintro (h | ⟨-, h⟩)
        · exact absurd hdrawable h.not_drawable
        · exact h

/-- **The search finds the first pass at fault**, and what is wrong with it. -/
theorem fault?_eq_some_iff {n : Nat} {ps : List Pass} {fault : SettingsFault} :
    fault? n ps = some fault ↔
      ∃ (i : Nat) (p : Pass), ps[i]? = some p ∧
        (∀ j < i, ∀ q : Pass, ps[j]? = some q → q.Drawable) ∧ p.Faulty (n + i) fault := by
  induction ps generalizing n with
  | nil => simp [fault?]
  | cons p ps ih =>
    rw [fault?_cons_eq_some_iff, ih]
    constructor
    · rintro (hfaulty | ⟨hdrawable, i, q, hq, hbefore, hfaulty⟩)
      · exact ⟨0, p, rfl, fun j hj => absurd hj (Nat.not_lt_zero j), hfaulty⟩
      · refine ⟨i + 1, q, hq, fun j hj r hr => ?_, ?_⟩
        · cases j with
          | zero =>
            cases hr
            exact hdrawable
          | succ j => exact hbefore j (Nat.lt_of_succ_lt_succ hj) r hr
        · rwa [Nat.add_assoc, Nat.add_comm 1] at hfaulty
    · rintro ⟨i, q, hq, hbefore, hfaulty⟩
      cases i with
      | zero =>
        cases hq
        exact .inl hfaulty
      | succ i =>
        refine .inr ⟨hbefore 0 (Nat.zero_lt_succ i) p rfl, i, q, hq, fun j hj r hr => ?_, ?_⟩
        · exact hbefore (j + 1) (Nat.succ_lt_succ hj) r hr
        · rwa [Nat.add_assoc, Nat.add_comm 1]

end Pass

namespace Settings

/-- **The first fault of settings**, in the order of the conditions. -/
inductive FirstFault (s : Settings) : SettingsFault → Prop where
  /-- Circles have no segments. -/
  | noCircleSegments : s.circleSegments = 0 → FirstFault s .noCircleSegments
  /-- Circles have segments, ellipses have none. -/
  | noEllipseSegments : s.circleSegments ≠ 0 → s.ellipseSegments = 0 →
    FirstFault s .noEllipseSegments
  /-- Curves have segments, and there are no passes. -/
  | noPasses : s.circleSegments ≠ 0 → s.ellipseSegments ≠ 0 → s.glow.passes = [] →
    FirstFault s .noPasses
  /-- Curves have segments, and a pass is at fault while all before it can be drawn. -/
  | pass {i : Nat} {p : Pass} {fault : SettingsFault} :
    s.circleSegments ≠ 0 → s.ellipseSegments ≠ 0 → s.glow.passes[i]? = some p →
    (∀ j < i, ∀ q : Pass, s.glow.passes[j]? = some q → q.Drawable) → p.Faulty i fault →
    FirstFault s fault

variable {s : Settings}

/-- **The search finds the first fault**, if there is one. -/
theorem fault?_eq_some_iff {fault : SettingsFault} :
    s.fault? = some fault ↔ s.FirstFault fault := by
  have hpass : Pass.fault? 0 s.glow.passes = some fault ↔
      ∃ (i : Nat) (p : Pass), s.glow.passes[i]? = some p ∧
        (∀ j < i, ∀ q : Pass, s.glow.passes[j]? = some q → q.Drawable) ∧ p.Faulty i fault := by
    rw [Pass.fault?_eq_some_iff]
    simp only [Nat.zero_add]
  rw [fault?]
  constructor
  · intro h
    split at h
    · next hcircle =>
      cases h
      exact .noCircleSegments hcircle
    · next hcircle =>
      split at h
      · next hellipse =>
        cases h
        exact .noEllipseSegments hcircle hellipse
      · next hellipse =>
        split at h
        · next hempty =>
          cases h
          exact .noPasses hcircle hellipse (List.isEmpty_iff.1 hempty)
        · obtain ⟨i, p, hp, hbefore, hfaulty⟩ := hpass.1 h
          exact .pass hcircle hellipse hp hbefore hfaulty
  · intro h
    cases h with
    | noCircleSegments hcircle => rw [if_pos hcircle]
    | noEllipseSegments hcircle hellipse => rw [if_neg hcircle, if_pos hellipse]
    | noPasses hcircle hellipse hnil =>
      rw [if_neg hcircle, if_neg hellipse, if_pos (List.isEmpty_iff.2 hnil)]
    | @pass i p fault hcircle hellipse hp hbefore hfaulty =>
      have hempty : ¬ s.glow.passes.isEmpty = true := by
        intro hempty
        rw [List.isEmpty_iff.1 hempty] at hp
        cases hp
      rw [if_neg hcircle, if_neg hellipse, if_neg hempty]
      exact hpass.2 ⟨i, p, hp, hbefore, hfaulty⟩

/-- **Settings without fault** are those that meet every condition. -/
theorem fault?_eq_none_iff :
    s.fault? = none ↔
      s.circleSegments ≠ 0 ∧ s.ellipseSegments ≠ 0 ∧ s.glow.passes ≠ [] ∧
        ∀ p ∈ s.glow.passes, p.Drawable := by
  constructor
  · intro h
    refine ⟨circleSegments_ne_zero h, ellipseSegments_ne_zero h, ?_, fun p hp => ?_⟩
    · intro hnil
      have hfirst := FirstFault.noPasses (circleSegments_ne_zero h) (ellipseSegments_ne_zero h) hnil
      rw [fault?_eq_some_iff.2 hfirst] at h
      cases h
    · exact p.drawable_iff.2 (Pass.fault?_eq_none_iff.1 (passes_fault?_eq_none h) p hp)
  · rintro ⟨hcircle, hellipse, hpasses, hdrawable⟩
    refine Option.eq_none_iff_forall_ne_some.2 fun fault hfault => ?_
    cases fault?_eq_some_iff.1 hfault with
    | noCircleSegments h => exact hcircle h
    | noEllipseSegments _ h => exact hellipse h
    | noPasses _ _ h => exact hpasses h
    | pass _ _ hp _ hfaulty => exact hfaulty.not_drawable (hdrawable _ (List.mem_of_getElem? hp))

end Settings

/-- The number of the pass at fault. -/
def SettingsFault.pass? : SettingsFault → Option Nat
  | .noCircleSegments | .noEllipseSegments | .noPasses => none
  | .width i _ | .brightness i _ => some i

/-- A fault of a pass is one of the passes' field, and its reason begins with the number. -/
theorem SettingsFault.names_pass {fault : SettingsFault} {i : Nat} (h : fault.pass? = some i) :
    fault.field = "glow.passes" ∧ ∃ rest, fault.reason = "pass " ++ toString i ++ rest := by
  cases fault with
  | noCircleSegments | noEllipseSegments | noPasses => cases h
  | width j w =>
    cases h
    exact ⟨rfl, " has non-positive width " ++ _, String.append_assoc⟩
  | brightness j b =>
    cases h
    exact ⟨rfl, " has negative brightness " ++ _, String.append_assoc⟩

theorem Pass.Faulty.pass?_eq {p : Pass} {i : Nat} {fault : SettingsFault} (h : p.Faulty i fault) :
    fault.pass? = some i := by
  cases h <;> rfl

/-- **The pass that is named is the first one at fault.** -/
theorem Settings.FirstFault.isLeast {s : Settings} {fault : SettingsFault} {i : Nat}
    (h : s.FirstFault fault) (hpass : fault.pass? = some i) :
    IsLeast {j : Nat | ∃ p : Pass, s.glow.passes[j]? = some p ∧ ¬ p.Drawable} i := by
  cases h with
  | noCircleSegments | noEllipseSegments | noPasses => cases hpass
  | pass _ _ hp hbefore hfaulty =>
    rw [hfaulty.pass?_eq, Option.some.injEq] at hpass
    rw [← hpass]
    refine ⟨⟨_, hp, hfaulty.not_drawable⟩, ?_⟩
    rintro j ⟨q, hq, hnot⟩
    exact Nat.le_of_not_lt fun hlt => hnot (hbefore j hlt q hq)

namespace Compiler

theorem ofSettings_eq_ok_iff {s : Settings} {c : Compiler} :
    ofSettings s = .ok c ↔ c.settings = s := by
  unfold ofSettings
  split
  · rw [Except.ok.injEq]
    constructor
    · rintro rfl
      rfl
    · rintro rfl
      rfl
  · next fault hfault =>
    constructor
    · nofun
    · rintro rfl
      rw [c.valid] at hfault
      cases hfault

theorem ofSettings_eq_error_iff {s : Settings} {fault : SettingsFault} :
    ofSettings s = .error fault ↔ s.fault? = some fault := by
  unfold ofSettings
  split
  · next hnone => simp [hnone]
  · next fault' hfault => rw [hfault, Except.error.injEq, Option.some.injEq]

/-- **Settings are accepted or their first fault is reported.** There is a compiler exactly if
both curves have segments, there are passes, and each of them has a finite width greater than
zero and a finite brightness no less than zero; it holds the settings it was given. Otherwise
the fault is the first one in the order of the conditions, and if it is one of a pass, then it
names the least number of a pass that cannot be drawn. -/
theorem ofSettings_reports_first_fault (s : Settings) :
    ((∃ c, ofSettings s = .ok c) ↔
      s.circleSegments ≠ 0 ∧ s.ellipseSegments ≠ 0 ∧ s.glow.passes ≠ [] ∧
        ∀ p ∈ s.glow.passes, (p.width.isFinite = true ∧ 0 < p.width) ∧
          p.brightness.isFinite = true ∧ 0 ≤ p.brightness) ∧
      (∀ c, ofSettings s = .ok c → c.settings = s) ∧
      (∀ fault, ofSettings s = .error fault ↔ s.FirstFault fault) ∧
      ∀ fault i, ofSettings s = .error fault → fault.pass? = some i →
        IsLeast {j : Nat | ∃ p : Pass, s.glow.passes[j]? = some p ∧ ¬ p.Drawable} i ∧
          fault.field = "glow.passes" ∧ ∃ rest, fault.reason = "pass " ++ toString i ++ rest := by
  refine ⟨?_, fun c => ofSettings_eq_ok_iff.1, fun fault => ?_, fun fault i h hi => ?_⟩
  · have hvalid : (∃ c, ofSettings s = .ok c) ↔ s.fault? = none := by
      constructor
      · rintro ⟨c, hc⟩
        rw [← ofSettings_eq_ok_iff.1 hc]
        exact c.valid
      · exact fun h => ⟨⟨s, h⟩, ofSettings_eq_ok_iff.2 rfl⟩
    rw [hvalid]
    exact Settings.fault?_eq_none_iff
  · rw [ofSettings_eq_error_iff]
    exact Settings.fault?_eq_some_iff
  · have hfirst := Settings.fault?_eq_some_iff.1 (ofSettings_eq_error_iff.1 h)
    exact ⟨hfirst.isLeast hi, SettingsFault.names_pass hi⟩

/-- Negative zero is a brightness; of an infinite width and a brightness that is no number, in
different passes, the earlier pass is reported. -/
theorem ofSettings_reports_second_pass :
    let passes : List Pass := [⟨0.5, -0⟩, ⟨2, 0 / 0⟩, ⟨1 / 0, 1⟩]
    let settings (ps : List Pass) : Settings := ⟨3, 3, ⟨ps, true⟩⟩
    (∃ c, ofSettings (settings (passes.take 1)) = .ok c) ∧
      ofSettings (settings passes) = .error (.brightness 1 (0 / 0)) ∧
      IsLeast {j : Nat | ∃ p : Pass, passes[j]? = some p ∧ ¬ p.Drawable} 1 := by
  intro passes settings
  have hfault : ofSettings (settings passes) = .error (.brightness 1 (0 / 0)) :=
    ofSettings_eq_error_iff.2 (by decide +kernel)
  refine ⟨(ofSettings_reports_first_fault _).1.2 (by decide +kernel), hfault, ?_⟩
  exact ((ofSettings_reports_first_fault _).2.2.2 _ 1 hfault rfl).1

end Compiler

end Linework
