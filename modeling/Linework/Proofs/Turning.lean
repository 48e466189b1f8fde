import Mathlib.Algebra.QuadraticAlgebra.Basic
import Mathlib.Analysis.SpecialFunctions.Trigonometric.Basic
import Mathlib.Data.List.Iterate
import Linework.Curve

/-!
# An ellipse followed step by step

The points of an ellipse are not computed from their angles. There is one unit step, which
is turned by the same angle again and again, and only that angle has a cosine and a sine
taken. Over exact numbers nothing is lost by it, and this module says what is meant.

To turn a step is to multiply it by a complex number, so the steps are the powers of that
number (`follow_rotate_eq`). All else is about powers. If the number is of length one, so are
they, and every point lies on the ellipse. If a power of it is one, the steps begin anew
there, so the last point is the first. And if cosine and sine of the multiples of an angle
are the parts of the powers, as they are for real angles, then an ellipse with equal radii
has the corners of the regular polygon, each of them computed from its own angle.

Cosine and sine may be any two elements of any commutative ring. Complex numbers over a ring
are pairs in Mathlib's `QuadraticAlgebra` with `-1` for a square.
-/

namespace Linework

/-- The complex numbers over a ring, as turns of the plane. -/
abbrev Turn (R : Type) [CommRing R] : Type := QuadraticAlgebra R (-1) 0

namespace Turn

variable {R : Type} [CommRing R]

/-- Where a turn takes the unit step to the right. -/
def step (w : Turn R) : Point R := ⟨w.re, w.im⟩

/-- **To turn is to multiply.** Both parts are taken from the step as it was before. -/
theorem rotate_step (z w : Turn R) : rotate z.re z.im w.step = (z * w).step := by
  refine congrArg₂ Point.mk ?_ ?_
  · show z.re * w.re - z.im * w.im = (z * w).re
    rw [QuadraticAlgebra.re_mul]
    ring
  · show z.im * w.re + z.re * w.im = (z * w).im
    rw [QuadraticAlgebra.im_mul]
    ring

/-- Turning again and again is a power. -/
theorem iterate_rotate (z : Turn R) (i : ℕ) : (rotate z.re z.im)^[i] ⟨1, 0⟩ = (z ^ i).step := by
  have h : Function.Semiconj step (z * ·) (rotate z.re z.im) := fun w => (rotate_step z w).symm
  calc (rotate z.re z.im)^[i] (step 1) = step ((z * ·)^[i] 1) := ((h.iterate_right i) 1).symm
    _ = (z ^ i).step := by rw [mul_left_iterate_apply_one]

/-- The length of a power, squared. -/
theorem sq_add_sq_pow (z : Turn R) (i : ℕ) :
    (z ^ i).re ^ 2 + (z ^ i).im ^ 2 = (z.re ^ 2 + z.im ^ 2) ^ i := by
  have hnorm : ∀ w : Turn R, w.norm = w.re ^ 2 + w.im ^ 2 := by
    intro w
    rw [QuadraticAlgebra.norm_def]
    ring
  rw [← hnorm, ← hnorm, map_pow]

/-- **The powers of a real turn are its multiples.** -/
theorem cos_sin_pow (θ : ℝ) (i : ℕ) :
    (⟨Real.cos θ, Real.sin θ⟩ : Turn ℝ) ^ i = ⟨Real.cos (θ * i), Real.sin (θ * i)⟩ := by
  induction i with
  | zero =>
    rw [pow_zero, Nat.cast_zero, mul_zero, Real.cos_zero, Real.sin_zero]
    rfl
  | succ i ih =>
    rw [pow_succ, ih, Nat.cast_succ, mul_add, mul_one, Real.cos_add, Real.sin_add,
      QuadraticAlgebra.mk_mul_mk]
    refine QuadraticAlgebra.ext ?_ ?_ <;> ring

end Turn

/-! ## Steps and points -/

theorem follow_eq_iterate {σ : Type} (next : σ → σ) (n : ℕ) (s : σ) :
    follow next n s = List.iterate next s (n + 1) := by
  induction n generalizing s with
  | zero => rfl
  | succ n ih =>
    rw [follow, ih]
    rfl

variable {R : Type} [CommRing R] (z : Turn R)

/-- The steps are the powers of the turn, the first one being no turn at all. -/
theorem follow_rotate_eq (n : ℕ) :
    follow (rotate z.re z.im) n ⟨1, 0⟩ = (List.range (n + 1)).map fun i => (z ^ i).step := by
  rw [follow_eq_iterate, ← List.range_map_iterate]
  exact List.map_congr_left fun i _ => z.iterate_rotate i

variable (center radii : Point R)

/-- The point of an ellipse that a turn leads to. -/
def Turn.pointOn (w : Turn R) : Point R :=
  ⟨center.x + radii.x * w.re, center.y + radii.y * w.im⟩

/-- **The points of an ellipse, each by its own power.** -/
theorem followEllipse_eq_map_pow (n : ℕ) :
    followEllipse id id z.re z.im center radii n =
      (List.range (n + 1)).map fun i => (z ^ i).pointOn center radii := by
  rw [followEllipse, follow_rotate_eq, List.map_map]
  refine List.map_congr_left fun i _ => congrArg₂ Point.mk ?_ ?_
  · show (z ^ i).re * radii.x + center.x = center.x + radii.x * (z ^ i).re
    ring
  · show (z ^ i).im * radii.y + center.y = center.y + radii.y * (z ^ i).im
    ring

/-- A point that a turn of length one leads to is on the ellipse. -/
theorem Turn.pointOn_equation {w : Turn R} (h : w.re ^ 2 + w.im ^ 2 = 1) :
    (radii.y * ((w.pointOn center radii).x - center.x)) ^ 2 +
        (radii.x * ((w.pointOn center radii).y - center.y)) ^ 2 = (radii.x * radii.y) ^ 2 := by
  show (radii.y * (center.x + radii.x * w.re - center.x)) ^ 2 +
    (radii.x * (center.y + radii.y * w.im - center.y)) ^ 2 = _
  linear_combination (radii.x * radii.y) ^ 2 * h

/-- All points but the last. -/
theorem take_followEllipse (n : ℕ) :
    (followEllipse id id z.re z.im center radii n).take n =
      (List.range n).map fun i => (z ^ i).pointOn center radii := by
  rw [followEllipse_eq_map_pow, ← List.map_take, List.take_range, min_eq_left n.le_succ]

/-- **The corners of a regular polygon, each by its own power**, if the parts of the powers
are the cosines and sines of the multiples of an angle. -/
theorem onCircle_evenDirections {cosOf sinOf : R → R} {θ : R} {n : ℕ}
    (hθ : ∀ i < n, cosOf (θ * i) = (z ^ i).re ∧ sinOf (θ * i) = (z ^ i).im) (r : R) :
    onCircle center r (evenDirections id cosOf sinOf Nat.cast 0 θ n) =
      (List.range n).map fun i => (z ^ i).pointOn center ⟨r, r⟩ := by
  rw [onCircle, evenDirections, List.map_map]
  refine List.map_congr_left fun i hi => ?_
  obtain ⟨hcos, hsin⟩ := hθ i (List.mem_range.1 hi)
  show center + Point.mk (cosOf (0 + θ * i) * r) (sinOf (0 + θ * i) * r) =
    center + Point.mk (r * (z ^ i).re) (r * (z ^ i).im)
  rw [zero_add, hcos, hsin, mul_comm r, mul_comm r]

/-- **An ellipse followed step by step is the ellipse.** Let cosine and sine be any two
elements of a commutative ring, and `z` the complex number with these parts. There is one
point more than there are segments, also if there are none, and each is where the power of
`z` takes the radii from the centre. If `z` has length one, all points satisfy the equation
of the ellipse. If its power for all the segments is one, the last point is the first. And
with equal radii the points but for the last are where the powers of `z` lead at the distance
of the radius; so they are the corners of the regular polygon that is not turned, for any two
functions whose values at the multiples of some angle are the parts of these powers. -/
theorem followEllipse_eq_powers {R : Type} [CommRing R] (cos sin : R) (center radii : Point R)
    (n : ℕ) :
    let z : Turn R := ⟨cos, sin⟩
    let points := followEllipse id id cos sin center radii n
    points.length = n + 1 ∧
    (∀ i ≤ n, points[i]? =
      some (center + ⟨radii.x * (z ^ i).re, radii.y * (z ^ i).im⟩)) ∧
    (cos ^ 2 + sin ^ 2 = 1 → ∀ p ∈ points,
      (radii.y * (p.x - center.x)) ^ 2 + (radii.x * (p.y - center.y)) ^ 2 =
        (radii.x * radii.y) ^ 2) ∧
    (z ^ n = 1 → points.getLast? = points.head?) ∧
    ∀ r, radii = ⟨r, r⟩ →
      (points.take n = (List.range n).map fun i => center + ⟨r * (z ^ i).re, r * (z ^ i).im⟩) ∧
      ∀ (cosOf sinOf : R → R) (θ : R),
        (∀ i < n, cosOf (θ * i) = (z ^ i).re ∧ sinOf (θ * i) = (z ^ i).im) →
          points.take n = onCircle center r (evenDirections id cosOf sinOf Nat.cast 0 θ n) := by
  intro z points
  have hpoints : points = (List.range (n + 1)).map fun i => (z ^ i).pointOn center radii :=
    followEllipse_eq_map_pow z center radii n
  have hget : ∀ i ≤ n, points[i]? = some ((z ^ i).pointOn center radii) := by
    intro i hi
    rw [hpoints, List.getElem?_map, List.getElem?_range (Nat.lt_succ_of_le hi), Option.map_some]
  refine ⟨length_followEllipse _ _ _ _ _ _ _, hget, fun hone p hp => ?_, fun hclosed => ?_, ?_⟩
  · rw [hpoints] at hp
    obtain ⟨i, -, rfl⟩ := List.mem_map.1 hp
    refine Turn.pointOn_equation center radii ?_
    rw [Turn.sq_add_sq_pow, hone, one_pow]
  · have hlength : points.length = n + 1 := length_followEllipse _ _ _ _ _ _ _
    rw [List.getLast?_eq_getElem?, List.head?_eq_getElem?, hlength, Nat.add_sub_cancel,
      hget n le_rfl, hget 0 n.zero_le, hclosed, pow_zero]
  · rintro r rfl
    have htake := take_followEllipse z center ⟨r, r⟩ n
    refine ⟨htake, fun cosOf sinOf θ hθ => ?_⟩
    rw [onCircle_evenDirections z center hθ]
    exact htake

/-- A real circle in forty segments: it closes, every point is on it, and the points but for
the last are those of the polygon with forty sides, each computed from its own angle. -/
theorem followEllipse_real_circle :
    let θ : ℝ := 2 * Real.pi / 40
    let points := followEllipse id id (Real.cos θ) (Real.sin θ) ⟨3, -1⟩ ⟨2, 2⟩ 40
    points.getLast? = points.head? ∧
      (∀ p ∈ points, (2 * (p.x - 3)) ^ 2 + (2 * (p.y - -1)) ^ 2 = (2 * 2) ^ 2) ∧
      points.take 40 = onCircle ⟨3, -1⟩ 2 (evenDirections id Real.cos Real.sin Nat.cast 0 θ 40) := by
  intro θ points
  obtain ⟨-, -, hon, hclosed, hpolygon⟩ :=
    followEllipse_eq_powers (Real.cos θ) (Real.sin θ) ⟨3, -1⟩ ⟨2, 2⟩ 40
  refine ⟨hclosed ?_, hon (Real.cos_sq_add_sin_sq θ),
    (hpolygon 2 rfl).2 Real.cos Real.sin θ fun i _ => ?_⟩
  · have hturn : θ * (40 : ℕ) = 2 * Real.pi := by
      rw [Nat.cast_ofNat, div_mul_cancel₀ _ (by norm_num)]
    rw [Turn.cos_sin_pow, hturn, Real.cos_two_pi, Real.sin_two_pi]
    rfl
  · rw [Turn.cos_sin_pow]
    exact ⟨rfl, rfl⟩

end Linework
