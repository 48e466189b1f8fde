import Linework.Point

/-!
# Bounds

The upright rectangle around a set of points, kept as its two extreme corners. It
is folded up from the first point on with the coordinate-wise lesser and greater
of `Point`, so over ordinary numbers it is the least rectangle that contains the
points, in whatever order they come; a coordinate that is not a number makes the
fold start afresh at the next point.
-/

namespace Linework

/-- An upright rectangle, by its corners. -/
structure Bounds (α : Type) where
  /-- The corner of the smallest coordinates. -/
  min : Point α
  /-- The corner of the largest coordinates. -/
  max : Point α
  deriving DecidableEq, Repr

namespace Bounds

variable {α : Type} [Scalar α]

/-- The bounds of a single point. -/
def ofPoint (p : Point α) : Bounds α := ⟨p, p⟩

/-- Bounds widened to reach a point. -/
def reach (b : Bounds α) (p : Point α) : Bounds α := ⟨b.min.lesser p, b.max.greater p⟩

/-- The bounds of some points, if there are any. -/
def ofPoints? : List (Point α) → Option (Bounds α)
  | [] => none
  | p :: ps => some (ps.foldl reach (ofPoint p))

@[simp] theorem ofPoints?_eq_none {ps : List (Point α)} : ofPoints? ps = none ↔ ps = [] := by
  cases ps <;> simp [ofPoints?]

/-- Width and height. -/
def size (b : Bounds α) : Point α := b.max - b.min

/-- Bounds with a margin on all four sides. -/
def expand (b : Bounds α) (amount : α) : Bounds α :=
  ⟨b.min - Point.splat amount, b.max + Point.splat amount⟩

end Bounds

end Linework
