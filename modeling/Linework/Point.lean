import Linework.Scalar

/-!
# Points

A point of the plane, in whatever numbers a drawing is computed in. Points are
added and scaled coordinate by coordinate, and there is a coordinate-wise lesser
and greater of two points. These two are plain comparisons: the second operand is
the result unless the first one is strictly smaller (or larger), so a coordinate
that is not a number is replaced by the next one it is compared with, and takes
the place of the one before it.
-/

namespace Linework

/-- A point of the plane, or a step from one to another. -/
structure Point (α : Type) where
  /-- How far to the right. -/
  x : α
  /-- How far down. -/
  y : α
  deriving DecidableEq, Repr

namespace Point

variable {α : Type}

/-- Whether two points have equal coordinates, as numbers compare: zeros of
either sign are equal, and what is not a number equals nothing. -/
def agrees [BEq α] (p q : Point α) : Bool := p.x == q.x && p.y == q.y

/-- A point moved by a step. -/
protected def add [Add α] (p q : Point α) : Point α := ⟨p.x + q.x, p.y + q.y⟩

/-- The step from the second point to the first. -/
protected def sub [Sub α] (p q : Point α) : Point α := ⟨p.x - q.x, p.y - q.y⟩

instance [Add α] : Add (Point α) := ⟨Point.add⟩

instance [Sub α] : Sub (Point α) := ⟨Point.sub⟩

/-- A step made longer by a factor. -/
def scale [Mul α] (p : Point α) (k : α) : Point α := ⟨p.x * k, p.y * k⟩

/-- The same number in both coordinates. -/
def splat (k : α) : Point α := ⟨k, k⟩

variable [Scalar α]

/-- In each coordinate the first point's number if it is the smaller one, and
the second's otherwise. -/
def lesser (p q : Point α) : Point α :=
  ⟨if p.x < q.x then p.x else q.x, if p.y < q.y then p.y else q.y⟩

/-- In each coordinate the first point's number if it is the larger one, and the
second's otherwise. -/
def greater (p q : Point α) : Point α :=
  ⟨if q.x < p.x then p.x else q.x, if q.y < p.y then p.y else q.y⟩

end Point

end Linework
