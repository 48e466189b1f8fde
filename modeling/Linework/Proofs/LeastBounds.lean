import Mathlib.Data.List.Perm.Basic
import Linework.Proofs.Extremes

/-!
# What bounds contain

For points with ordinary coordinates bounds are as they should be. Each of their numbers is
the coordinate of some point, so no smaller rectangle contains the points; points in another
order, or the same ones more often, have equal bounds; and the bounds of two lists together
are put together from the bounds of each, to the last bit (`Bounds.least_of_ordinary`).
Equal means equal as numbers, for of two zeros it is the later one that comes out.

A single coordinate that is not a number spoils this. It takes all that came before it out of
the bounds, along its axis, and as a picture may have such vertices – a radius too large for
a single is infinite, and infinity times the sine of zero is not a number – bounds may fail to
contain parts of a picture whose coordinates are fine. They contain what happens to lie
between the numbers that come last, and nothing else (`Bounds.contains_numbers_iff`).
-/

namespace Linework

/-- Both coordinates of a point are numbers. -/
def Point.IsOrdinary (p : Point Float32) : Prop := ∀ axis, (p.along axis).isNaN = false

/-- Each point of either list has its equal in the other. -/
def SamePoints (ps qs : List (Point Float32)) : Prop :=
  (∀ p ∈ ps, ∃ q ∈ qs, p.agrees q = true) ∧ ∀ q ∈ qs, ∃ p ∈ ps, q.agrees p = true

namespace Bounds

variable {a b : Bounds Float32} {ps qs : List (Point Float32)}

/-! ## Ordinary points -/

/-- Along an axis the bounds of ordinary points are the least and the greatest. -/
theorem spans_of_ordinary (h : ofPoints? ps = some b) (hps : ∀ p ∈ ps, p.IsOrdinary)
    (axis : Axis) : Spans (b.min.along axis) (b.max.along axis) (ps.map (·.along axis)) := by
  have hlast : lastNumbers (ps.map (·.along axis)) = ps.map (·.along axis) := by
    refine lastNumbers_eq_self fun x hx => ?_
    obtain ⟨p, hp, rfl⟩ := List.mem_map.1 hx
    exact hps p hp axis
  have hspans := (spans_ofPoints? h axis).2
  rw [hlast] at hspans
  refine hspans fun hnil => ?_
  rw [List.map_eq_nil_iff.1 hnil] at h
  cases h

theorem eachAmong_along (h : ∀ p ∈ ps, ∃ q ∈ qs, p.agrees q = true) (axis : Axis) :
    EachAmong (ps.map (·.along axis)) (qs.map (·.along axis)) := by
  intro x hx
  obtain ⟨p, hp, rfl⟩ := List.mem_map.1 hx
  obtain ⟨q, hq, hpq⟩ := h p hp
  exact ⟨q.along axis, List.mem_map_of_mem hq, Point.agrees_iff.1 hpq axis⟩

end Bounds

namespace SamePoints

variable {ps qs : List (Point Float32)}

/-- Only ordinary points have their equals. -/
theorem isOrdinary (h : SamePoints ps qs) : ∀ p ∈ ps, p.IsOrdinary := by
  intro p hp axis
  obtain ⟨q, -, hpq⟩ := h.1 p hp
  exact (beq_iff_rank.1 (Point.agrees_iff.1 hpq axis)).1.1

theorem symm (h : SamePoints ps qs) : SamePoints qs ps := ⟨h.2, h.1⟩

/-- The same points to the last bit are the same points. -/
theorem of_mem_iff (hps : ∀ p ∈ ps, p.IsOrdinary) (h : ∀ p, p ∈ qs ↔ p ∈ ps) :
    SamePoints ps qs := by
  have hself : ∀ p ∈ ps, p.agrees p = true := fun p hp =>
    Point.agrees_iff.2 fun axis => beq_iff_rank.2 ⟨⟨hps p hp axis, hps p hp axis⟩, rfl⟩
  exact ⟨fun p hp => ⟨p, (h p).2 hp, hself p hp⟩,
    fun q hq => ⟨q, (h q).1 hq, hself q ((h q).1 hq)⟩⟩

theorem ne_nil (h : SamePoints ps qs) (hps : ps ≠ []) : qs ≠ [] := by
  obtain ⟨p, hp⟩ := List.exists_mem_of_ne_nil ps hps
  obtain ⟨q, hq, -⟩ := h.1 p hp
  exact List.ne_nil_of_mem hq

end SamePoints

namespace Bounds

variable {a b : Bounds Float32} {ps qs : List (Point Float32)}

/-- The same points have equal bounds. -/
theorem agrees_of_samePoints (hps : ofPoints? ps = some a) (hqs : ofPoints? qs = some b)
    (h : SamePoints ps qs) : b.min.agrees a.min = true ∧ b.max.agrees a.max = true := by
  have hbeq : ∀ axis, (b.min.along axis == a.min.along axis) = true ∧
      (b.max.along axis == a.max.along axis) = true := fun axis =>
    (spans_of_ordinary hqs h.symm.isOrdinary axis).beq (spans_of_ordinary hps h.isOrdinary axis)
      (eachAmong_along h.2 axis) (eachAmong_along h.1 axis)
  exact ⟨Point.agrees_iff.2 fun axis => (hbeq axis).1, Point.agrees_iff.2 fun axis => (hbeq axis).2⟩

/-- **Bounds are put together** from those of two parts. -/
theorem ofPoints?_append (hps : ofPoints? ps = some a) (hqs : ofPoints? qs = some b)
    (hord : ∀ q ∈ qs, q.IsOrdinary) :
    ofPoints? (ps ++ qs) = some ⟨a.min.lesser b.min, a.max.greater b.max⟩ := by
  cases ps with
  | nil => cases hps
  | cons p ps =>
    cases qs with
    | nil => cases hqs
    | cons q qs =>
      obtain ⟨c, hc⟩ : ∃ c, ofPoints? (p :: (ps ++ q :: qs)) = some c := ⟨_, rfl⟩
      have hnumber : ∀ axis, ∀ z ∈ q.along axis :: qs.map (·.along axis), (!z.isNaN) = true := by
        intro axis z hz
        have hz' : z ∈ (q :: qs).map (·.along axis) := hz
        obtain ⟨r, hr, rfl⟩ := List.mem_map.1 hz'
        rw [hord r hr axis]
        rfl
      rw [List.cons_append, hc]
      refine congrArg some (congrArg₂ mk (Point.ext_along fun axis => ?_)
        (Point.ext_along fun axis => ?_))
      · rw [Point.along_lesser, (along_ofPoints? hps axis).1, (along_ofPoints? hqs axis).1,
          (along_ofPoints? hc axis).1, List.map_append, List.foldl_append, List.map_cons,
          ranking_lt.foldl_keep_append _ _ _ (hnumber axis)]
      · rw [Point.along_greater, (along_ofPoints? hps axis).2, (along_ofPoints? hqs axis).2,
          (along_ofPoints? hc axis).2, List.map_append, List.foldl_append, List.map_cons,
          ranking_gt.foldl_keep_append _ _ _ (hnumber axis)]

/-- **Bounds are least, and the order of the points does not matter.** Let some points have
coordinates that are numbers, zeros of either sign and infinities included. They have bounds,
each number of which is the coordinate of some point, and which contain the points; so any
rectangle that contains the points contains the bounds. A rearrangement of the points, any
list of the very same points, and even any list of points that are equal to them has equal
bounds. And with further points that are ordinary, too, the bounds are the lesser and the
greater corners of the bounds of each. -/
theorem least_of_ordinary (ps : List (Point Float32)) (hne : ps ≠ [])
    (hord : ∀ p ∈ ps, p.IsOrdinary) :
    ∃ b, ofPoints? ps = some b ∧
      (∀ axis, (∃ p ∈ ps, b.min.along axis = p.along axis) ∧
        ∃ p ∈ ps, b.max.along axis = p.along axis) ∧
      (∀ p ∈ ps, b.Contains p) ∧
      (∀ r : Bounds Float32, (∀ p ∈ ps, r.Contains p) → r.Contains b.min ∧ r.Contains b.max) ∧
      (∀ qs, qs.Perm ps ∨ (∀ p, p ∈ qs ↔ p ∈ ps) ∨ SamePoints ps qs →
        ∃ b', ofPoints? qs = some b' ∧
          b'.min.agrees b.min = true ∧ b'.max.agrees b.max = true) ∧
      ∀ qs, qs ≠ [] → (∀ q ∈ qs, q.IsOrdinary) →
        ∃ b', ofPoints? qs = some b' ∧
          ofPoints? (ps ++ qs) = some ⟨b.min.lesser b'.min, b.max.greater b'.max⟩ := by
  obtain ⟨b, hb⟩ := exists_ofPoints? hne
  have hspans := spans_of_ordinary hb hord
  have hattained : ∀ axis, (∃ p ∈ ps, b.min.along axis = p.along axis) ∧
      ∃ p ∈ ps, b.max.along axis = p.along axis := by
    intro axis
    obtain ⟨p, hp, hmin⟩ := List.mem_map.1 (hspans axis).lo_mem
    obtain ⟨q, hq, hmax⟩ := List.mem_map.1 (hspans axis).hi_mem
    exact ⟨⟨p, hp, hmin.symm⟩, q, hq, hmax.symm⟩
  refine ⟨b, hb, hattained, ?_, fun r hr => ⟨fun axis => ?_, fun axis => ?_⟩, fun qs hqs => ?_,
    fun qs hqs hord' => ?_⟩
  · exact fun p hp axis => (hspans axis).between _ (List.mem_map_of_mem hp)
  · obtain ⟨⟨p, hp, heq⟩, -⟩ := hattained axis
    rw [heq]
    exact hr p hp axis
  · obtain ⟨-, p, hp, heq⟩ := hattained axis
    rw [heq]
    exact hr p hp axis
  · have hsame : SamePoints ps qs := by
      rcases hqs with hperm | hmem | hsame
      · exact .of_mem_iff hord fun p => hperm.mem_iff
      · exact .of_mem_iff hord hmem
      · exact hsame
    obtain ⟨b', hb'⟩ := exists_ofPoints? (hsame.ne_nil hne)
    exact ⟨b', hb', agrees_of_samePoints hb hb' hsame⟩
  · obtain ⟨b', hb'⟩ := exists_ofPoints? hqs
    exact ⟨b', hb', ofPoints?_append hb hb' hord'⟩

/-- Two zeros, and an infinity. Of the zeros the later one comes out, so the other way round
the bounds are equal only as numbers. With a third point added, the bounds are widened by its
own. -/
theorem least_of_zeros :
    let ps : List (Point Float32) := [⟨0, 1⟩, ⟨-0, 1.0 / 0.0⟩]
    let qs : List (Point Float32) := [⟨-0, 1.0 / 0.0⟩, ⟨0, 1⟩]
    (∀ p ∈ ps, p.IsOrdinary) ∧
      ∃ b b', ofPoints? ps = some b ∧ ofPoints? qs = some b' ∧
        b'.min.agrees b.min = true ∧ b'.min ≠ b.min ∧
        ∃ r, ofPoints? (ps ++ [⟨-3, 2⟩]) = some r ∧ r.min.along .horizontal = -3 := by
  intro ps qs
  have hord : ∀ p ∈ ps, p.IsOrdinary := by
    intro p hp axis
    rcases List.mem_pair.1 hp with rfl | rfl <;> cases axis <;> decide +kernel
  have hthird : ∀ q ∈ [(⟨-3, 2⟩ : Point Float32)], q.IsOrdinary := by
    intro q hq axis
    rw [List.mem_singleton.1 hq]
    cases axis <;> decide +kernel
  obtain ⟨b, hb, -, -, -, hsame, hmore⟩ := least_of_ordinary ps (List.cons_ne_nil _ _) hord
  obtain ⟨b', hb', hagrees, -⟩ := hsame qs (.inl (List.Perm.swap _ _ _))
  obtain ⟨r, hr, hput⟩ := hmore [⟨-3, 2⟩] (List.cons_ne_nil _ _) hthird
  refine ⟨hord, b, b', hb, hb', hagrees, ?_, _, hput, ?_⟩
  · rw [← Option.some.inj hb, ← Option.some.inj hb']
    decide +kernel
  · rw [← Option.some.inj hb, ← Option.some.inj hr]
    decide +kernel

/-! ## Points that are not ordinary -/

/-- **Bounds contain what lies between the last numbers.** Along either axis, look at the
coordinates that come after the last one that is not a number. If there are none, the bounds
are not numbers there and contain nothing. If there are, the bounds are the least and the
greatest of them. So bounds contain all the coordinates that are numbers exactly if each of
these lies between two of the last. -/
theorem contains_numbers_iff (ps : List (Point Float32)) (hne : ps ≠ []) :
    ∃ b, ofPoints? ps = some b ∧ ∀ axis,
      let xs := ps.map (·.along axis)
      let lo := b.min.along axis
      let hi := b.max.along axis
      (lastNumbers xs = [] → lo.isNaN = true ∧ hi.isNaN = true) ∧
      (lastNumbers xs ≠ [] → Spans lo hi (lastNumbers xs)) ∧
      ((∀ x ∈ xs, x.isNaN = false → lo ≤ x ∧ x ≤ hi) ↔
        ∀ x ∈ xs, x.isNaN = false →
          ∃ y ∈ lastNumbers xs, ∃ z ∈ lastNumbers xs, y ≤ x ∧ x ≤ z) := by
  obtain ⟨b, hb⟩ := exists_ofPoints? hne
  refine ⟨b, hb, fun axis => ?_⟩
  intro xs lo hi
  obtain ⟨hnone, hsome⟩ := spans_ofPoints? hb axis
  refine ⟨hnone, hsome, forall₃_congr fun x _ hx => ?_⟩
  by_cases hnil : lastNumbers xs = []
  · -- what is not a number is below nothing, and there is nothing to lie between
    refine iff_of_false (fun h => ?_) ?_
    · have hlo := (le_iff_rank.1 h.1).1.1
      rw [(hnone hnil).1] at hlo
      cases hlo
    · rintro ⟨y, hy, -⟩
      rw [hnil] at hy
      cases hy
  · have hspans := hsome hnil
    constructor
    · exact fun h => ⟨lo, hspans.lo_mem, hi, hspans.hi_mem, h⟩
    · rintro ⟨y, hy, z, hz, hyx, hxz⟩
      exact ⟨le_trans_single (hspans.between y hy).1 hyx,
        le_trans_single hxz (hspans.between z hz).2⟩

/-- A coordinate that is not a number does no harm if what comes after it reaches as far. -/
theorem contains_numbers_before_gap :
    let ps : List (Point Float32) := [⟨3, 0⟩, ⟨0.0 / 0.0, 0⟩, ⟨1, 0⟩, ⟨5, 0⟩]
    ps ≠ [] ∧ ∃ b, ofPoints? ps = some b ∧ b.min.along .horizontal ≤ 3 ∧
      3 ≤ b.max.along .horizontal := by
  intro ps
  have hne : ps ≠ [] := List.cons_ne_nil _ _
  obtain ⟨b, hb, hcontains⟩ := contains_numbers_iff ps hne
  obtain ⟨-, -, hiff⟩ := hcontains .horizontal
  have hlast : lastNumbers (ps.map (·.along .horizontal)) = [1, 5] := by decide +kernel
  rw [hlast] at hiff
  refine ⟨hne, b, hb, hiff.2 (fun x hx hnumber => ?_) 3 List.mem_cons_self (by decide +kernel)⟩
  have hall : ∀ x ∈ ps.map (·.along .horizontal), x.isNaN = false → 1 ≤ x ∧ x ≤ 5 := by
    decide +kernel
  exact ⟨1, List.mem_cons_self, 5, List.mem_cons_of_mem _ List.mem_cons_self, hall x hx hnumber⟩

/-- **Bounds may leave out points that are ordinary.** Two segments, and between them a vertex
that is infinitely far to the right and not a number down: of the first segment nothing is
inside the bounds. -/
theorem numbers_left_out :
    let ps : List (Point Float32) := [⟨0, 10⟩, ⟨0, 20⟩, ⟨1.0 / 0.0, 0.0 / 0.0⟩, ⟨5, 30⟩, ⟨5, 40⟩]
    ∃ b, ofPoints? ps = some b ∧ b.min.along .vertical = 30 ∧ b.max.along .vertical = 40 ∧
      ¬ ∀ axis, ∀ p ∈ ps, (p.along axis).isNaN = false →
        b.min.along axis ≤ p.along axis ∧ p.along axis ≤ b.max.along axis := by
  intro ps
  refine ⟨_, rfl, by decide +kernel, by decide +kernel, fun h => ?_⟩
  exact absurd (h .vertical ⟨0, 10⟩ List.mem_cons_self (by decide +kernel)).1 (by decide +kernel)

end Bounds

end Linework
