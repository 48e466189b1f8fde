import Mathlib.Data.List.DropRight
import Mathlib.Order.OrderDual
import Linework.Proofs.Bounds
import Linework.Proofs.Single

/-!
# The least and the greatest of some numbers

Bounds are folded up from comparisons that always prefer the later number unless the earlier
one is strictly better. Over ordinary numbers that makes them what bounds should be: the
least rectangle that the points are in, whatever the order of the points, and put together
from the bounds of parts. Zeros of either sign are ordinary here, and so are infinities.

What is not a number is never better than anything, and nothing is better than it. So it
takes the place of all that came before it and then gives way to whatever comes next, and
what is left in the end are the numbers after the last of its kind, the *last numbers*. That
is the invariant (`Ranking.foldl_keep`): the outcome is the best of the last numbers, if there
are any, and not a number otherwise. Where all are numbers they are all last ones.

A coordinate is looked at by itself, along one `Axis` or the other, and whether it is the
least or the greatest is a matter of the `Ranking`.
-/

namespace Linework

/-! ## The best of the last numbers -/

/-- One thing is better than another exactly if both are numbers and its key is smaller. -/
structure Ranking {α κ : Type} [LinearOrder κ] (better : α → α → Prop) (isNumber : α → Bool)
    (key : α → κ) : Prop where
  /-- What it is to be better. -/
  better_iff (a b : α) : better a b ↔ (isNumber a = true ∧ isNumber b = true) ∧ key a < key b

namespace Ranking

variable {α κ : Type} [LinearOrder κ] {better : α → α → Prop} [DecidableRel better]
  {isNumber : α → Bool} {key : α → κ} {v y : α} {late : List α}

omit [DecidableRel better] in
theorem isTrans (h : Ranking better isNumber key) : IsTrans α better where
  trans a b c hab hbc := by
    rw [h.better_iff] at hab hbc ⊢
    exact ⟨⟨hab.1.1, hbc.1.2⟩, hab.2.trans hbc.2⟩

/-- What is not a number is not kept, nor is anything kept from it. -/
theorem keep_of_not (h : Ranking better isNumber key)
    (hnot : isNumber v = false ∨ isNumber y = false) : keep better v y = y := by
  rw [keep, if_neg]
  intro hbetter
  obtain ⟨⟨hv, hy⟩, -⟩ := (h.better_iff v y).1 hbetter
  rw [hv, hy] at hnot
  exact hnot.elim Bool.noConfusion Bool.noConfusion

/-- Of two numbers the better one is kept, or one that is as good. -/
theorem key_keep (h : Ranking better isNumber key) (hv : isNumber v = true)
    (hy : isNumber y = true) : key (keep better v y) = min (key v) (key y) := by
  have hiff : better v y ↔ key v < key y :=
    (h.better_iff v y).trans (and_iff_right ⟨hv, hy⟩)
  rw [keep, min_def_lt]
  split
  · next hb => rw [if_pos (hiff.1 hb)]
  · next hb => rw [if_neg fun hlt => hb (hiff.2 hlt)]

/-- The best of the last numbers, or not a number if there are none. -/
structure IsBest (isNumber : α → Bool) (key : α → κ) (v : α) (late : List α) : Prop where
  /-- Without last numbers it is not a number. -/
  of_nil : late = [] → isNumber v = false
  /-- Otherwise it is one of them. -/
  mem : late ≠ [] → v ∈ late
  /-- None of them is better. -/
  le : ∀ z ∈ late, key v ≤ key z

theorem IsBest.nil (hy : isNumber y = false) : IsBest isNumber key y [] :=
  ⟨fun _ => hy, fun hne => absurd rfl hne, fun _ hz => absurd hz List.not_mem_nil⟩

theorem IsBest.singleton (y : α) : IsBest isNumber key y [y] :=
  ⟨fun hnil => absurd hnil (List.cons_ne_nil _ _), fun _ => List.mem_singleton_self y,
    fun _ hz => (congrArg key (List.mem_singleton.1 hz)).ge⟩

/-- One step: a number is added to the last ones, and anything else wipes them out. -/
theorem isBest_keep (h : Ranking better isNumber key) (hlate : ∀ z ∈ late, isNumber z = true)
    (hv : IsBest isNumber key v late) :
    IsBest isNumber key (keep better v y) (if isNumber y then late ++ [y] else []) := by
  cases hy : isNumber y with
  | false =>
    rw [h.keep_of_not (.inr hy)]
    exact .nil hy
  | true =>
    rw [if_pos rfl]
    by_cases hnil : late = []
    · rw [h.keep_of_not (.inl (hv.of_nil hnil)), hnil]
      exact .singleton y
    · have hkey := h.key_keep (hlate v (hv.mem hnil)) hy
      refine ⟨fun h => absurd h (List.append_ne_nil_of_right_ne_nil _ (List.cons_ne_nil _ _)),
        fun _ => ?_, fun z hz => ?_⟩
      · rw [List.mem_append, List.mem_singleton]
        exact (keep_eq_or v y).imp_left fun heq => by rw [heq]; exact hv.mem hnil
      · rw [hkey]
        rcases List.mem_append.1 hz with hz | hz
        · exact (min_le_left _ _).trans (hv.le z hz)
        · rw [List.mem_singleton.1 hz]
          exact min_le_right _ _

/-- **What a fold keeps is the best of the last numbers.** -/
theorem foldl_keep (h : Ranking better isNumber key) (y : α) (ys : List α) :
    IsBest isNumber key (ys.foldl (keep better) y) ((y :: ys).rtakeWhile isNumber) := by
  -- from the end, where the step is taken and where the last numbers are
  induction ys using List.reverseRecOn with
  | nil =>
    show IsBest isNumber key y (([] ++ [y]).rtakeWhile isNumber)
    rw [List.rtakeWhile_concat]
    split
    · exact .singleton y
    · next hy => exact .nil (Bool.eq_false_iff.2 hy)
  | append_singleton ys z ih =>
    rw [List.foldl_append, ← List.cons_append, List.rtakeWhile_concat]
    exact h.isBest_keep (fun _ => List.mem_rtakeWhile_imp) ih

/-- **The best of two parts is the better of the best of each**, where all are numbers. It
is the same one, and not merely as good: of several the last one comes out either way. -/
theorem foldl_keep_append (h : Ranking better isNumber key) (v y : α) (ys : List α)
    (hys : ∀ z ∈ y :: ys, isNumber z = true) :
    (y :: ys).foldl (keep better) v = keep better v (ys.foldl (keep better) y) := by
  have := h.isTrans
  have hbest := h.foldl_keep y ys
  rw [List.rtakeWhile_eq_self_iff.2 hys] at hbest
  have hmem := hbest.mem (List.cons_ne_nil y ys)
  by_cases hstays : ∀ z ∈ y :: ys, better v z
  · rw [foldl_keep_of_forall hstays, keep, if_pos (hstays _ hmem)]
  · -- what does not stay leaves no trace, and the first of the part does not stay either
    have hfirst : ¬ ∀ z ∈ y :: ys, better y z := fun hall =>
      lt_irrefl _ ((h.better_iff y y).1 (hall y List.mem_cons_self)).2
    have hnot : ¬ better v (ys.foldl (keep better) y) := by
      intro hbetter
      obtain ⟨⟨hv, -⟩, hlt⟩ := (h.better_iff _ _).1 hbetter
      exact hstays fun z hz =>
        (h.better_iff v z).2 ⟨⟨hv, hys z hz⟩, hlt.trans_le (hbest.le z hz)⟩
    rw [foldl_keep_eq hstays hfirst, List.foldl_cons, keep, ite_self, keep, if_neg hnot]

end Ranking

/-! ## Singles -/

/-- The smaller single is better. -/
theorem ranking_lt : Ranking (fun x y : Float32 => x < y) (fun x => !x.isNaN) rank where
  better_iff x y := by
    rw [lt_iff_rank, Bool.not_eq_true', Bool.not_eq_true']

/-- The larger single is better. -/
theorem ranking_gt :
    Ranking (fun x y : Float32 => x > y) (fun x => !x.isNaN) (OrderDual.toDual ∘ rank) where
  better_iff x y := by
    show y < x ↔ _
    rw [lt_iff_rank, Bool.not_eq_true', Bool.not_eq_true', and_comm (a := y.isNaN = false)]
    rfl

/-- The numbers after the last that is none. -/
def lastNumbers (xs : List Float32) : List Float32 := xs.rtakeWhile fun x => !x.isNaN

theorem isNaN_of_mem_lastNumbers {xs : List Float32} {x : Float32} (h : x ∈ lastNumbers xs) :
    x.isNaN = false := by
  have hnot := List.mem_rtakeWhile_imp h
  exact (Bool.not_eq_true' _).mp hnot

theorem lastNumbers_eq_self {xs : List Float32} (h : ∀ x ∈ xs, x.isNaN = false) :
    lastNumbers xs = xs :=
  List.rtakeWhile_eq_self_iff.2 fun x hx => (Bool.not_eq_true' _).mpr (h x hx)

/-- Two of some numbers are their least and their greatest. -/
structure Spans (lo hi : Float32) (xs : List Float32) : Prop where
  /-- The least is one of them. -/
  lo_mem : lo ∈ xs
  /-- So is the greatest. -/
  hi_mem : hi ∈ xs
  /-- All are between the two. -/
  between : ∀ x ∈ xs, lo ≤ x ∧ x ≤ hi

/-- **Folding up the lesser and the greater** gives the least and the greatest of the last
numbers, if there are any, and otherwise nothing that is a number. -/
theorem spans_foldl_keep (y : Float32) (ys : List Float32) :
    let lo := ys.foldl (keep (· < ·)) y
    let hi := ys.foldl (keep (· > ·)) y
    (lastNumbers (y :: ys) = [] → lo.isNaN = true ∧ hi.isNaN = true) ∧
      (lastNumbers (y :: ys) ≠ [] → Spans lo hi (lastNumbers (y :: ys))) := by
  intro lo hi
  have hlo := ranking_lt.foldl_keep y ys
  have hhi := ranking_gt.foldl_keep y ys
  refine ⟨fun hnil => ⟨?_, ?_⟩, fun hne => ⟨hlo.mem hne, hhi.mem hne, fun x hx => ⟨?_, ?_⟩⟩⟩
  · exact (Bool.not_eq_false' _).mp (hlo.of_nil hnil)
  · exact (Bool.not_eq_false' _).mp (hhi.of_nil hnil)
  · exact le_iff_rank.2 ⟨⟨isNaN_of_mem_lastNumbers (hlo.mem hne), isNaN_of_mem_lastNumbers hx⟩,
      hlo.le x hx⟩
  · exact le_iff_rank.2 ⟨⟨isNaN_of_mem_lastNumbers hx, isNaN_of_mem_lastNumbers (hhi.mem hne)⟩,
      hhi.le x hx⟩

/-- Each of some numbers equals one of some others. -/
def EachAmong (xs ys : List Float32) : Prop := ∀ x ∈ xs, ∃ y ∈ ys, (x == y) = true

/-- The least and the greatest are a matter of the numbers alone. -/
theorem Spans.beq {lo hi lo' hi' : Float32} {xs ys : List Float32} (h : Spans lo hi xs)
    (h' : Spans lo' hi' ys) (hxs : EachAmong xs ys) (hys : EachAmong ys xs) :
    (lo == lo') = true ∧ (hi == hi') = true := by
  have hle : ∀ {a b c d : Float32} {us vs : List Float32}, Spans a b us → Spans c d vs →
      EachAmong us vs → c ≤ a ∧ b ≤ d := by
    intro a b c d us vs hus hvs hamong
    obtain ⟨v, hv, hav⟩ := hamong a hus.lo_mem
    obtain ⟨w, hw, hbw⟩ := hamong b hus.hi_mem
    rw [beq_iff_rank] at hav hbw
    rw [le_iff_rank, le_iff_rank, hav.2, hbw.2]
    obtain ⟨⟨hc, -⟩, hcv⟩ := le_iff_rank.1 (hvs.between v hv).1
    obtain ⟨⟨-, hd⟩, hwd⟩ := le_iff_rank.1 (hvs.between w hw).2
    exact ⟨⟨⟨hc, hav.1.1⟩, hcv⟩, ⟨hbw.1.1, hd⟩, hwd⟩
  obtain ⟨hlo, hhi⟩ := hle h h' hxs
  obtain ⟨hlo', hhi'⟩ := hle h' h hys
  rw [le_iff_rank] at hlo hhi hlo' hhi'
  rw [beq_iff_rank, beq_iff_rank]
  exact ⟨⟨hlo'.1, le_antisymm hlo'.2 hlo.2⟩, hhi.1, le_antisymm hhi.2 hhi'.2⟩

/-! ## Bounds along an axis -/

theorem Point.agrees_iff {p q : Point Float32} :
    p.agrees q = true ↔ ∀ axis, (p.along axis == q.along axis) = true := by
  rw [agrees, Bool.and_eq_true]
  exact ⟨fun h axis => by cases axis; exacts [h.1, h.2], fun h => ⟨h .horizontal, h .vertical⟩⟩

namespace Bounds

variable {b : Bounds Float32} {p : Point Float32} {ps : List (Point Float32)}

/-- The numbers of bounds along an axis are folded up from the coordinates along it. -/
theorem along_ofPoints? (h : ofPoints? (p :: ps) = some b) (axis : Axis) :
    b.min.along axis = (ps.map (·.along axis)).foldl (keep (· < ·)) (p.along axis) ∧
      b.max.along axis = (ps.map (·.along axis)).foldl (keep (· > ·)) (p.along axis) := by
  rw [← Option.some.inj h, foldl_reach]
  cases axis <;> exact ⟨rfl, rfl⟩

/-- **Bounds along an axis** are the least and the greatest of the last numbers. -/
theorem spans_ofPoints? (h : ofPoints? ps = some b) (axis : Axis) :
    let late := lastNumbers (ps.map (·.along axis))
    (late = [] → (b.min.along axis).isNaN = true ∧ (b.max.along axis).isNaN = true) ∧
      (late ≠ [] → Spans (b.min.along axis) (b.max.along axis) late) := by
  cases ps with
  | nil => cases h
  | cons p ps =>
    obtain ⟨hmin, hmax⟩ := along_ofPoints? h axis
    rw [hmin, hmax]
    exact spans_foldl_keep (p.along axis) (ps.map (·.along axis))

end Bounds

end Linework
