import Mathlib.Order.Bounds.Basic
import Mathlib.Tactic.Linarith
import Linework.Proofs.Bounds
import Linework.Proofs.Exact
import Linework.Viewport

/-!
# A picture stays inside its window

Over exact numbers a picture that is fitted to a window is inside it, with all of its
vertices and with the margin on all four sides, scaled as the picture is. Nothing of this
depends on where the picture was before: moved as a whole it ends up in the same place.

Two facts carry it. Bounds contain the points they are folded up from
(`Bounds.contains_of_ofPoints?`), and the scale is the greatest that the window allows
(`Fit.isGreatest_scale`). Bounds narrower than one unit would count as one unit wide, but
with the margin on both sides there are none.
-/

namespace Linework

/-! ## Bounds of exact points -/

namespace Point

theorem along_lesser_rat (p q : Point ℚ) (axis : Axis) :
    (p.lesser q).along axis = min (p.along axis) (q.along axis) :=
  (along_lesser p q axis).trans (min_def_lt _ _).symm

theorem along_greater_rat (p q : Point ℚ) (axis : Axis) :
    (p.greater q).along axis = max (p.along axis) (q.along axis) :=
  (along_greater p q axis).trans ((max_def_lt _ _).symm.trans (max_comm _ _))

theorem along_add (p v : Point ℚ) (axis : Axis) :
    (p + v).along axis = p.along axis + v.along axis := by
  cases axis <;> rfl

end Point

namespace Bounds

theorem contains_ofPoint (p : Point ℚ) : (ofPoint p).Contains p :=
  fun _ => ⟨le_rfl, le_rfl⟩

/-- One step: bounds reach the next point, and keep the points they contain. -/
theorem contains_reach {b : Bounds ℚ} {p q : Point ℚ} (h : b.Contains q ∨ q = p) :
    (b.reach p).Contains q := by
  intro axis
  rw [reach, Point.along_lesser_rat, Point.along_greater_rat]
  rcases h with h | rfl
  · exact ⟨(min_le_left _ _).trans (h axis).1, (h axis).2.trans (le_max_left _ _)⟩
  · exact ⟨min_le_right _ _, le_max_right _ _⟩

theorem contains_foldl_reach {b : Bounds ℚ} {ps : List (Point ℚ)} {q : Point ℚ}
    (h : b.Contains q ∨ q ∈ ps) : (ps.foldl reach b).Contains q := by
  induction ps generalizing b with
  | nil => exact h.resolve_right List.not_mem_nil
  | cons p ps ih =>
    rw [List.mem_cons, ← or_assoc] at h
    exact ih (h.imp_left contains_reach)

/-- **Points are inside their bounds.** -/
theorem contains_of_ofPoints? {ps : List (Point ℚ)} {b : Bounds ℚ} (h : ofPoints? ps = some b)
    {q : Point ℚ} (hq : q ∈ ps) : b.Contains q := by
  cases ps with
  | nil => cases hq
  | cons p ps =>
    rw [← Option.some.inj h]
    refine contains_foldl_reach ?_
    rcases List.mem_cons.1 hq with rfl | hq
    · exact .inl (contains_ofPoint q)
    · exact .inr hq

/-- Bounds moved by a step. -/
def moved (v : Point ℚ) (b : Bounds ℚ) : Bounds ℚ := ⟨b.min + v, b.max + v⟩

theorem reach_moved (v : Point ℚ) (b : Bounds ℚ) (p : Point ℚ) :
    (b.moved v).reach (p + v) = (b.reach p).moved v := by
  refine congrArg₂ mk (Point.ext_along fun axis => ?_) (Point.ext_along fun axis => ?_)
  · show ((b.min + v).lesser (p + v)).along axis = (b.min.lesser p + v).along axis
    rw [Point.along_lesser_rat, Point.along_add, Point.along_add, Point.along_add,
      Point.along_lesser_rat, min_add_add_right]
  · show ((b.max + v).greater (p + v)).along axis = (b.max.greater p + v).along axis
    rw [Point.along_greater_rat, Point.along_add, Point.along_add, Point.along_add,
      Point.along_greater_rat, max_add_add_right]

/-- The bounds move with the points. -/
theorem ofPoints?_map_add (v : Point ℚ) (ps : List (Point ℚ)) :
    ofPoints? (ps.map (· + v)) = (ofPoints? ps).map (moved v) := by
  cases ps with
  | nil => rfl
  | cons p ps =>
    show some ((ps.map (· + v)).foldl reach ((ofPoint p).moved v)) = some _
    rw [List.foldl_map, List.foldl_hom (moved v) (reach_moved v)]

/-- The size of bounds with a margin: twice the margin more. -/
theorem size_expand (b : Bounds ℚ) (k : ℚ) :
    (b.expand k).size = ⟨b.max.x - b.min.x + 2 * k, b.max.y - b.min.y + 2 * k⟩ := by
  refine congrArg₂ Point.mk ?_ ?_
  · show b.max.x + k - (b.min.x - k) = _
    ring
  · show b.max.y + k - (b.min.y - k) = _
    ring

theorem size_expand_moved (b : Bounds ℚ) (v : Point ℚ) (k : ℚ) :
    ((b.moved v).expand k).size = (b.expand k).size := by
  rw [size_expand, size_expand]
  refine congrArg₂ Point.mk ?_ ?_
  · show b.max.x + v.x - (b.min.x + v.x) + 2 * k = _
    ring
  · show b.max.y + v.y - (b.min.y + v.y) + 2 * k = _
    ring

end Bounds

/-! ## The greatest scale -/

namespace Fit

theorem margin_rat : (margin : ℚ) = 20 := rfl

/-- Where a fit puts a point. -/
def place (fit : Fit ℚ) (p : Point ℚ) : Point ℚ := p.scale fit.scale + fit.offset

section OfBounds

variable {b : Bounds ℚ} {screen : Point ℚ}

theorem scale_ofBounds (hx : 1 ≤ b.size.x) (hy : 1 ≤ b.size.y) :
    (ofBounds b screen).scale = min (min (screen.x / b.size.x) (screen.y / b.size.y)) 1 := by
  have hgreater : b.size.greater (.splat (Scalar.ofNat 1)) = b.size := by
    refine Point.ext_along fun axis => ?_
    rw [Point.along_greater_rat, Scalar.ofNat_rat, Nat.cast_one]
    cases axis with
    | horizontal => exact max_eq_left hx
    | vertical => exact max_eq_left hy
  rw [ofBounds, hgreater, Scalar.minNum_rat, Scalar.minNum_rat, Scalar.ofNat_rat, Nat.cast_one]

/-- **The scale is the greatest** of those that do not enlarge and let the bounds fit
into the window both ways. -/
theorem isGreatest_scale (hx : 1 ≤ b.size.x) (hy : 1 ≤ b.size.y) :
    IsGreatest {k : ℚ | k ≤ 1 ∧ b.size.x * k ≤ screen.x ∧ b.size.y * k ≤ screen.y}
      (ofBounds b screen).scale := by
  have hx' : 0 < b.size.x := zero_lt_one.trans_le hx
  have hy' : 0 < b.size.y := zero_lt_one.trans_le hy
  have hiff : ∀ k : ℚ, k ≤ (ofBounds b screen).scale ↔
      k ≤ 1 ∧ b.size.x * k ≤ screen.x ∧ b.size.y * k ≤ screen.y := by
    intro k
    rw [scale_ofBounds hx hy, le_min_iff, le_min_iff, le_div_iff₀' hx', le_div_iff₀' hy', and_comm]
  exact ⟨(hiff _).1 le_rfl, fun k hk => (hiff k).2 hk⟩

theorem scale_pos (hx : 1 ≤ b.size.x) (hy : 1 ≤ b.size.y) (hw : 0 < screen.x)
    (hh : 0 < screen.y) : 0 < (ofBounds b screen).scale := by
  rw [scale_ofBounds hx hy]
  exact lt_min (lt_min (div_pos hw (zero_lt_one.trans_le hx))
    (div_pos hh (zero_lt_one.trans_le hy))) zero_lt_one

/-- A point goes where its distance from the corner goes. -/
theorem place_ofBounds (p : Point ℚ) :
    (ofBounds b screen).place p =
      ⟨(p.x - b.min.x) * (ofBounds b screen).scale,
        (p.y - b.min.y) * (ofBounds b screen).scale⟩ := by
  refine congrArg₂ Point.mk ?_ ?_
  · show p.x * (ofBounds b screen).scale + -b.min.x * (ofBounds b screen).scale = _
    ring
  · show p.y * (ofBounds b screen).scale + -b.min.y * (ofBounds b screen).scale = _
    ring

end OfBounds

/-- One direction of a picture inside its window: a coordinate `x` between `lo` and `hi`,
with the margin `m` on both sides, at a scale that fits the width. -/
theorem clearance {x lo hi m k width : ℚ} (hx : x ∈ Set.Icc lo hi) (hk : 0 ≤ k)
    (hfit : (hi - lo + 2 * m) * k ≤ width) :
    (x - (lo - m)) * k ∈ Set.Icc (m * k) (width - m * k) := by
  have hleft : 0 ≤ (x - lo) * k := mul_nonneg (sub_nonneg.2 hx.1) hk
  have hright : 0 ≤ (hi - x) * k := mul_nonneg (sub_nonneg.2 hx.2) hk
  constructor <;> linarith

end Fit

/-! ## Pictures -/

/-- A primitive moved by a step. -/
def Primitive.moved (v : Point ℚ) (p : Primitive ℚ) : Primitive ℚ :=
  { p with vertices := p.vertices.map (· + v) }

theorem verticesOf_map_moved (v : Point ℚ) (ps : List (Primitive ℚ)) :
    verticesOf (ps.map (·.moved v)) = (verticesOf ps).map (· + v) := by
  rw [verticesOf, verticesOf, List.flatMap_map, List.map_flatMap]
  rfl

namespace Fit

variable {ps : List (Primitive ℚ)} {b : Bounds ℚ} {screen : Point ℚ}

theorem ofPrimitives_eq (h : Bounds.ofPoints? (verticesOf ps) = some b) (screen : Point ℚ) :
    ofPrimitives ps screen = ofBounds (b.expand margin) screen := by
  rw [ofPrimitives, h]

/-- With the margin no picture is narrow. -/
theorem one_le_size (h : Bounds.ofPoints? (verticesOf ps) = some b) :
    1 ≤ (b.expand margin).size.x ∧ 1 ≤ (b.expand margin).size.y := by
  obtain ⟨p, hp⟩ : ∃ p, p ∈ verticesOf ps := by
    refine List.exists_mem_of_ne_nil _ fun hnil => ?_
    rw [hnil] at h
    cases h
  have hcontains := Bounds.contains_of_ofPoints? h hp
  have hx : b.min.x ≤ b.max.x := (hcontains .horizontal).1.trans (hcontains .horizontal).2
  have hy : b.min.y ≤ b.max.y := (hcontains .vertical).1.trans (hcontains .vertical).2
  rw [Bounds.size_expand, margin_rat]
  constructor <;> linarith

/-- A vertex keeps the margin on all four sides, scaled. -/
theorem place_mem (h : Bounds.ofPoints? (verticesOf ps) = some b) (hw : 0 < screen.x)
    (hh : 0 < screen.y) {p : Point ℚ} (hp : p ∈ verticesOf ps) :
    let fit := ofBounds (b.expand margin) screen
    (fit.place p).x ∈ Set.Icc (margin * fit.scale) (screen.x - margin * fit.scale) ∧
      (fit.place p).y ∈ Set.Icc (margin * fit.scale) (screen.y - margin * fit.scale) := by
  intro fit
  obtain ⟨hsx, hsy⟩ := one_le_size h
  have hcontains := Bounds.contains_of_ofPoints? h hp
  obtain ⟨-, hwidth, hheight⟩ := (isGreatest_scale hsx hsy).1
  have hpos : 0 ≤ fit.scale := (scale_pos hsx hsy hw hh).le
  rw [Bounds.size_expand] at hwidth hheight
  rw [place_ofBounds]
  exact ⟨clearance (hcontains .horizontal) hpos hwidth,
    clearance (hcontains .vertical) hpos hheight⟩

/-- A picture that is moved as a whole ends up in the same place. -/
theorem ofBounds_moved (b : Bounds ℚ) (v screen : Point ℚ) :
    let fit := ofBounds (b.expand margin) screen
    let fit' := ofBounds ((b.moved v).expand margin) screen
    fit'.scale = fit.scale ∧ ∀ p, fit'.place (p + v) = fit.place p := by
  intro fit fit'
  have hscale : fit'.scale = fit.scale := by
    show (ofBounds _ _).scale = (ofBounds _ _).scale
    rw [ofBounds, ofBounds, Bounds.size_expand_moved]
  refine ⟨hscale, fun p => ?_⟩
  rw [place_ofBounds, place_ofBounds]
  show Point.mk ((p.x + v.x - (b.min.x + v.x - margin)) * fit'.scale)
    ((p.y + v.y - (b.min.y + v.y - margin)) * fit'.scale) =
      ⟨(p.x - (b.min.x - margin)) * fit.scale, (p.y - (b.min.y - margin)) * fit.scale⟩
  rw [hscale]
  congr 2 <;> ring

/-- **A picture is inside its window.** If it has a vertex, and the window a width and a
height, it is scaled by a positive number, never enlarged, and each of its vertices is put
inside the window, the scaled margin away from all four sides at least. No greater scale
would do, unless it enlarged: the bounds with their margin would not fit one way or the
other. And the picture may be moved as a whole before; it is scaled alike and all of its
vertices end up where they did. Without a vertex nothing is scaled or moved. -/
theorem picture_inside_window (ps : List (Primitive ℚ)) (screen : Point ℚ) :
    (verticesOf ps = [] → ofPrimitives ps screen = ⟨1, ⟨0, 0⟩⟩) ∧
    (verticesOf ps ≠ [] → 0 < screen.x → 0 < screen.y →
      let fit := ofPrimitives ps screen
      (0 < fit.scale ∧ fit.scale ≤ 1) ∧
      (∀ q ∈ ps, ∀ p ∈ q.vertices,
        (fit.place p).x ∈ Set.Icc (margin * fit.scale) (screen.x - margin * fit.scale) ∧
        (fit.place p).y ∈ Set.Icc (margin * fit.scale) (screen.y - margin * fit.scale)) ∧
      (∃ b, Bounds.ofPoints? (verticesOf ps) = some b ∧
        IsGreatest {k : ℚ | k ≤ 1 ∧ (b.expand margin).size.x * k ≤ screen.x ∧
          (b.expand margin).size.y * k ≤ screen.y} fit.scale) ∧
      ∀ v : Point ℚ,
        let fit' := ofPrimitives (ps.map (·.moved v)) screen
        fit'.scale = fit.scale ∧
          ∀ q ∈ ps, ∀ p ∈ q.vertices, fit'.place (p + v) = fit.place p) := by
  constructor
  · intro hnil
    rw [ofPrimitives, hnil]
    rfl
  · intro hne hw hh
    obtain ⟨b, hb⟩ := Bounds.exists_ofPoints? hne
    obtain ⟨hsx, hsy⟩ := one_le_size hb
    have hgreatest : IsGreatest _ (ofBounds (b.expand margin) screen).scale :=
      isGreatest_scale hsx hsy
    rw [ofPrimitives_eq hb]
    refine ⟨⟨scale_pos hsx hsy hw hh, hgreatest.1.1⟩, ?_, ⟨b, hb, hgreatest⟩, fun v => ?_⟩
    · intro q hq p hp
      exact place_mem hb hw hh (List.mem_flatMap.2 ⟨q, hq, hp⟩)
    · have hmoved : Bounds.ofPoints? (verticesOf (ps.map (·.moved v))) = some (b.moved v) := by
        rw [verticesOf_map_moved, Bounds.ofPoints?_map_add, hb, Option.map_some]
      rw [ofPrimitives_eq hmoved]
      obtain ⟨hscale, hplace⟩ := ofBounds_moved b v screen
      exact ⟨hscale, fun _ _ p _ => hplace p⟩

/-- A level segment twice as wide as its window, margins and all: it is halved, and its
right end comes to lie half a margin inside. -/
theorem wide_segment_inside_window :
    let ps : List (Primitive ℚ) := [⟨1, ⟨255, 0, 0, 255⟩, .segments, [⟨-10, 5⟩, ⟨390, 5⟩]⟩]
    let fit := ofPrimitives ps ⟨220, 100⟩
    verticesOf ps ≠ [] ∧ fit.scale = 1 / 2 ∧ (fit.place ⟨390, 5⟩).x ∈ Set.Icc 10 210 := by
  intro ps fit
  have hne : verticesOf ps ≠ [] := by decide
  have hscale : fit.scale = 1 / 2 := by decide +kernel
  obtain ⟨-, hinside, -⟩ := (picture_inside_window ps ⟨220, 100⟩).2 hne (by norm_num) (by norm_num)
  have hx := (hinside _ (List.mem_singleton_self _) ⟨390, 5⟩ (by simp)).1
  have hmargin : margin * fit.scale = 10 := by
    rw [hscale, margin_rat]
    norm_num
  rw [hmargin] at hx
  exact ⟨hne, hscale, hx.1, hx.2.trans (by norm_num)⟩

end Fit

end Linework
