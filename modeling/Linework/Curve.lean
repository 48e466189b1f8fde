import Linework.Binary
import Linework.Point

/-!
# Points along curves

A curve is drawn through finitely many of its points. The corners of a regular
polygon lie on a circle, each reached from the centre in its own direction; a
circle is drawn as such a polygon. An ellipse is followed instead: one unit step
is turned again and again by the same angle and stretched to the radii. It returns
to where it began, so it has one more point than it has segments.

Angles and the turning step are in double precision, everything else is in
single. What does not depend on the precision is stated for any numbers:
`onCircle`, `evenDirections`, `rotate` and `followEllipse` are the formulas, and
`ngon` and `ellipse` apply them.
-/

namespace Linework

section Formulas

variable {α ω : Type}

/-- The points that lie from a centre in the given directions, at the distance
of a radius. -/
def onCircle [Add α] [Mul α] (center : Point α) (radius : α) (directions : List (Point α)) :
    List (Point α) :=
  directions.map fun d => center + d.scale radius

/-- Evenly spaced directions: the first one at `rotation`, each `step` further than the
one before. Angles are in one kind of number and directions in another. -/
def evenDirections [Add ω] [Mul ω] (narrow : ω → α) (cos sin : ω → ω) (ofCount : Nat → ω)
    (rotation step : ω) (count : Nat) : List (Point α) :=
  (List.range count).map fun i =>
    let angle := rotation + step * ofCount i
    ⟨narrow (cos angle), narrow (sin angle)⟩

/-- A step turned by an angle, of which the cosine and sine are given. -/
def rotate [Add ω] [Sub ω] [Mul ω] (cos sin : ω) (p : Point ω) : Point ω :=
  ⟨cos * p.x - sin * p.y, sin * p.x + cos * p.y⟩

/-- A start, and what becomes of it in so many steps. -/
def follow {σ : Type} (next : σ → σ) : Nat → σ → List σ
  | 0, s => [s]
  | n + 1, s => s :: follow next n (next s)

/-- The points of an ellipse followed by turning a unit step: one more than there
are segments. The steps are taken in one kind of number and the points are in
another, with the conversions between the two given. -/
def followEllipse [Add α] [Add ω] [Sub ω] [Mul ω] [OfNat ω 0] [OfNat ω 1]
    (widen : α → ω) (narrow : ω → α) (cos sin : ω) (center radii : Point α) (segments : Nat) :
    List (Point α) :=
  (follow (rotate cos sin) segments ⟨1, 0⟩).map fun step =>
    ⟨narrow (step.x * widen radii.x) + center.x, narrow (step.y * widen radii.y) + center.y⟩

@[simp] theorem length_onCircle [Add α] [Mul α] (center : Point α) (radius : α)
    (directions : List (Point α)) :
    (onCircle center radius directions).length = directions.length := by
  simp [onCircle]

@[simp] theorem length_evenDirections [Add ω] [Mul ω] (narrow : ω → α) (cos sin : ω → ω)
    (ofCount : Nat → ω) (rotation step : ω) (count : Nat) :
    (evenDirections narrow cos sin ofCount rotation step count).length = count := by
  simp [evenDirections]

@[simp] theorem length_follow {σ : Type} (next : σ → σ) (n : Nat) (s : σ) :
    (follow next n s).length = n + 1 := by
  induction n generalizing s with
  | zero => rfl
  | succ n ih => simp [follow, ih]

@[simp] theorem length_followEllipse [Add α] [Add ω] [Sub ω] [Mul ω] [OfNat ω 0] [OfNat ω 1]
    (widen : α → ω) (narrow : ω → α) (cos sin : ω) (center radii : Point α) (segments : Nat) :
    (followEllipse widen narrow cos sin center radii segments).length = segments + 1 := by
  simp [followEllipse]

end Formulas

/-- A full turn. -/
def fullTurn : Float := 6.283185307179586

/-- The directions from the centre of a regular polygon to its corners, the first
one turned by `rotation`. -/
def directions (sides : UInt32) (rotation : Float32) : List (Point Float32) :=
  evenDirections narrow Float.cos Float.sin (fun i => i.toUInt32.toFloat) rotation.toFloat
    (fullTurn / sides.toFloat) sides.toNat

/-- The corners of a regular polygon, in order. -/
def ngon (center : Point Float32) (radius : Float32) (sides : UInt32) (rotation : Float32) :
    List (Point Float32) :=
  onCircle center radius (directions sides rotation)

@[simp] theorem length_ngon (center : Point Float32) (radius : Float32) (sides : UInt32)
    (rotation : Float32) : (ngon center radius sides rotation).length = sides.toNat := by
  simp [ngon, directions]

/-- The points of an upright ellipse, the first one also the last. -/
def ellipse (center radii : Point Float32) (segments : UInt32) : List (Point Float32) :=
  let angle := fullTurn / segments.toFloat
  followEllipse Float32.toFloat narrow angle.cos angle.sin center radii segments.toNat

@[simp] theorem length_ellipse (center radii : Point Float32) (segments : UInt32) :
    (ellipse center radii segments).length = segments.toNat + 1 := by
  simp [ellipse]

end Linework
