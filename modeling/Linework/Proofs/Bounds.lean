import Mathlib.Logic.Basic
import Mathlib.Order.Defs.Unbundled
import Linework.Bounds

/-!
# Points seen again

Bounds are folded up point by point, and each of their four numbers by itself: the
number there is stays if it is strictly smaller (or larger) than that of the next
point, and otherwise the next one takes its place. So the order of the points can
be seen: of two zeros the later one comes out, and what is not a number wipes out
all that came before it.

What cannot be seen is that some points come again right after they have come. This
takes no more of the numbers than that `<` is transitive. A number either stays all
the way through the points or does not, and if it does not, the outcome is that of
the points alone (`foldl_keep_eq`). Either way the second time through the same
points ends where the first did.

`SameBounds` is what two lists of points have in common if they have the same
bounds among whatever other points they stand: the same first point, and the same
effect on bounds there are.

What bounds are for is to contain the points (`Bounds.Contains`). Whether they do
depends on the numbers, so it is said here for any order, one `Axis` at a time, and
shown where the numbers are known.
-/

namespace Linework

/-! ## One number -/

section Keep

variable {α : Type} (better : α → α → Prop) [DecidableRel better]

/-- The first number if it is the better one, and otherwise the second. -/
def keep (x y : α) : α := if better x y then x else y

variable {better}

theorem keep_eq_or (x y : α) : keep better x y = x ∨ keep better x y = y := by
  rw [keep]
  split
  · exact .inl rfl
  · exact .inr rfl

theorem foldl_keep_of_forall {x : α} {ys : List α} (h : ∀ y ∈ ys, better x y) :
    ys.foldl (keep better) x = x := by
  induction ys with
  | nil => rfl
  | cons y ys ih =>
    rw [List.foldl_cons, keep, if_pos (h y List.mem_cons_self)]
    exact ih fun z hz => h z (List.mem_cons_of_mem y hz)

omit [DecidableRel better] in
/-- A number that is better than the next one but does not stay leaves no more trace
than the next one. -/
theorem not_forall_of_better [IsTrans α better] {x y : α} {ys : List α} (hxy : better x y)
    (h : ¬ ∀ z ∈ y :: ys, better x z) :
    (¬ ∀ z ∈ ys, better x z) ∧ ¬ ∀ z ∈ ys, better y z := by
  have hx : ¬ ∀ z ∈ ys, better x z := fun hys => h (List.forall_mem_cons.2 ⟨hxy, hys⟩)
  exact ⟨hx, fun hys => hx fun z hz => trans_of better hxy (hys z hz)⟩

/-- **Numbers that do not stay make no difference.** -/
theorem foldl_keep_eq [IsTrans α better] {x x' : α} {ys : List α} (h : ¬ ∀ y ∈ ys, better x y)
    (h' : ¬ ∀ y ∈ ys, better x' y) : ys.foldl (keep better) x = ys.foldl (keep better) x' := by
  induction ys generalizing x x' with
  | nil => exact absurd (List.forall_mem_nil _) h
  | cons y ys ih =>
    rw [List.foldl_cons, List.foldl_cons, keep, keep]
    by_cases hxy : better x y
    · obtain ⟨hx, hy⟩ := not_forall_of_better hxy h
      rw [if_pos hxy]
      by_cases hxy' : better x' y
      · rw [if_pos hxy']
        exact ih hx (not_forall_of_better hxy' h').1
      · rw [if_neg hxy']
        exact ih hx hy
    · rw [if_neg hxy]
      by_cases hxy' : better x' y
      · obtain ⟨hx', hy⟩ := not_forall_of_better hxy' h'
        rw [if_pos hxy']
        exact ih hy hx'
      · rw [if_neg hxy']

theorem foldl_keep_foldl_keep [IsTrans α better] (x : α) (ys : List α) :
    ys.foldl (keep better) (ys.foldl (keep better) x) = ys.foldl (keep better) x := by
  by_cases hx : ∀ y ∈ ys, better x y
  · rw [foldl_keep_of_forall hx, foldl_keep_of_forall hx]
  · by_cases hagain : ∀ y ∈ ys, better (ys.foldl (keep better) x) y
    · rw [foldl_keep_of_forall hagain]
    · exact foldl_keep_eq hagain hx

end Keep

/-! ## Four numbers -/

namespace Bounds

variable {α : Type} [Scalar α]

/-- Each number of the bounds is folded up by itself. -/
theorem foldl_reach (b : Bounds α) (ps : List (Point α)) :
    ps.foldl reach b =
      ⟨⟨(ps.map (·.x)).foldl (keep (· < ·)) b.min.x, (ps.map (·.y)).foldl (keep (· < ·)) b.min.y⟩,
        ⟨(ps.map (·.x)).foldl (keep (· > ·)) b.max.x,
          (ps.map (·.y)).foldl (keep (· > ·)) b.max.y⟩⟩ := by
  induction ps generalizing b with
  | nil => rfl
  | cons p ps ih =>
    rw [List.foldl_cons, ih]
    rfl

/-- **Points seen again change nothing.** -/
theorem foldl_reach_foldl_reach [IsTrans α (· < ·)] (b : Bounds α) (ps : List (Point α)) :
    ps.foldl reach (ps.foldl reach b) = ps.foldl reach b := by
  have : IsTrans α (· > ·) := ⟨fun x y z hxy hyz => trans_of (· < ·) hyz hxy⟩
  rw [foldl_reach, foldl_reach]
  simp only [foldl_keep_foldl_keep]

/-- The first point is seen a second time without effect, whatever its numbers. -/
theorem reach_ofPoint (p : Point α) : (ofPoint p).reach p = ofPoint p := by
  show Bounds.mk ⟨if p.x < p.x then p.x else p.x, if p.y < p.y then p.y else p.y⟩
    ⟨if p.x < p.x then p.x else p.x, if p.y < p.y then p.y else p.y⟩ = _
  simp only [ite_self]
  rfl

theorem ofPoints?_eq (ps : List (Point α)) :
    ofPoints? ps = ps.head?.map fun p => ps.foldl reach (ofPoint p) := by
  cases ps with
  | nil => rfl
  | cons p ps =>
    rw [List.head?_cons, Option.map_some, List.foldl_cons, reach_ofPoint]
    rfl

theorem exists_ofPoints? {ps : List (Point α)} (h : ps ≠ []) : ∃ b, ofPoints? ps = some b :=
  Option.ne_none_iff_exists'.1 fun hnone => h (ofPoints?_eq_none.1 hnone)

/-- Two lists of points begin alike and do the same to any bounds. -/
structure SameBounds (ps qs : List (Point α)) : Prop where
  /-- They have the same first point, if any. -/
  head : ps.head? = qs.head?
  /-- They widen bounds alike. -/
  fold : ∀ b : Bounds α, ps.foldl reach b = qs.foldl reach b

namespace SameBounds

variable {ps ps' qs qs' : List (Point α)}

theorem refl (ps : List (Point α)) : SameBounds ps ps := ⟨rfl, fun _ => rfl⟩

theorem append (h : SameBounds ps qs) (h' : SameBounds ps' qs') :
    SameBounds (ps ++ ps') (qs ++ qs') where
  head := by rw [List.head?_append, List.head?_append, h.head, h'.head]
  fold b := by rw [List.foldl_append, List.foldl_append, h.fold, h'.fold]

theorem flatMap {β : Type} {f g : β → List (Point α)} (h : ∀ x, SameBounds (f x) (g x))
    (xs : List β) : SameBounds (xs.flatMap f) (xs.flatMap g) := by
  induction xs with
  | nil => exact refl []
  | cons x xs ih =>
    rw [List.flatMap_cons, List.flatMap_cons]
    exact (h x).append ih

/-- Points that come several times in a row, all of them each time. -/
theorem repeated [IsTrans α (· < ·)] {β : Type} {xs : List β} (h : xs ≠ [])
    (ps : List (Point α)) : SameBounds (xs.flatMap fun _ => ps) ps := by
  induction xs with
  | nil => exact absurd rfl h
  | cons x xs ih =>
    rw [List.flatMap_cons]
    cases xs with
    | nil =>
      rw [List.flatMap_nil, List.append_nil]
      exact refl ps
    | cons x' xs =>
      have hmore := ih (List.cons_ne_nil x' xs)
      refine ⟨?_, fun b => ?_⟩
      · rw [List.head?_append, hmore.head, Option.or_self]
      · rw [List.foldl_append, hmore.fold, foldl_reach_foldl_reach]

theorem ofPoints?_eq (h : SameBounds ps qs) : ofPoints? ps = ofPoints? qs := by
  rw [Bounds.ofPoints?_eq, Bounds.ofPoints?_eq, h.head]
  exact congrArg (Option.map · _) (funext fun p => h.fold (ofPoint p))

end SameBounds

end Bounds

/-! ## Along the axes -/

/-- The two directions that coordinates are measured in. -/
inductive Axis where
  /-- To the right. -/
  | horizontal
  /-- Downwards. -/
  | vertical
  deriving DecidableEq, Repr

namespace Point

variable {α : Type}

/-- A coordinate of a point. -/
def along (p : Point α) : Axis → α
  | .horizontal => p.x
  | .vertical => p.y

theorem ext_along {p q : Point α} (h : ∀ axis, p.along axis = q.along axis) : p = q :=
  congrArg₂ mk (h .horizontal) (h .vertical)

variable [Scalar α]

theorem along_lesser (p q : Point α) (axis : Axis) :
    (p.lesser q).along axis = keep (· < ·) (p.along axis) (q.along axis) := by
  cases axis <;> rfl

theorem along_greater (p q : Point α) (axis : Axis) :
    (p.greater q).along axis = keep (· > ·) (p.along axis) (q.along axis) := by
  cases axis <;> rfl

end Point

/-- **A point is inside of bounds**, or on their rim. -/
def Bounds.Contains {α : Type} [LE α] (b : Bounds α) (p : Point α) : Prop :=
  ∀ axis, b.min.along axis ≤ p.along axis ∧ p.along axis ≤ b.max.along axis

end Linework
