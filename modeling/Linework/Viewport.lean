import Linework.Bounds
import Linework.Primitive

/-!
# Fitting a picture to a window

A picture is shown scaled and moved so that all of it is inside the window, with
a margin around it. It is never enlarged. The margin is added to the bounds
before scaling, so it shrinks with the picture, and bounds narrower than one unit
count as one unit wide.
-/

namespace Linework

/-- Where a picture goes: every point is scaled, then moved. -/
structure Fit (α : Type) where
  /-- The factor. -/
  scale : α
  /-- The movement. -/
  offset : Point α
  deriving DecidableEq, Repr

namespace Fit

variable {α : Type} [Scalar α]

open Scalar

/-- The margin left around a picture, before scaling. -/
def margin : α := ofNat 20

/-- The fit of bounds that already include the margin. -/
def ofBounds (b : Bounds α) (screen : Point α) : Fit α :=
  let size := b.size.greater (.splat (ofNat 1))
  let scale := minNum (minNum (screen.x / size.x) (screen.y / size.y)) (ofNat 1)
  ⟨scale, Point.scale ⟨-b.min.x, -b.min.y⟩ scale⟩

/-- The fit of a picture. Without vertices there is nothing to move. -/
def ofPrimitives (ps : List (Primitive α)) (screen : Point α) : Fit α :=
  match Bounds.ofPoints? (verticesOf ps) with
  | none => ⟨ofNat 1, .splat (ofNat 0)⟩
  | some b => ofBounds (b.expand margin) screen

end Fit

end Linework
