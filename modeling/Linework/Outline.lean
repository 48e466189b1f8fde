import Linework.Curve

/-!
# Outlines

A rectangle is drawn edge by edge; a polygon is drawn as one closed loop through
its vertices. A polygon is given by its vertices or as a regular one, and either
may turn out to have none. With a single vertex the loop shrinks to a segment
without length.
-/

namespace Linework

/-- The edges of a rectangle in the order they are walked, beginning at its
position. The size may be negative. -/
def boxEdges {α : Type} [Add α] (pos size : Point α) : List (Point α × Point α) :=
  let across : Point α := ⟨pos.x + size.x, pos.y⟩
  let opposite := pos + size
  let down : Point α := ⟨pos.x, pos.y + size.y⟩
  [(pos, across), (across, opposite), (opposite, down), (down, pos)]

/-- The two ways of giving a polygon. -/
inductive PolygonForm where
  /-- By its vertices, in order. -/
  | points (points : List (Point Float32))
  /-- By a circle that its vertices lie on evenly, the first one turned by
  `rotation`. -/
  | regular (center : Point Float32) (radius : Float32) (sides : UInt32) (rotation : Float32)
  deriving DecidableEq, Repr

/-- Why a polygon has no outline. -/
inductive PolygonFault where
  /-- No vertices are given. -/
  | noVertices
  /-- It is said to have no sides. -/
  | noSides
  deriving DecidableEq, Repr

namespace PolygonFault

/-- The kind of shape at fault. -/
def kind (_ : PolygonFault) : String := "polygon"

/-- What is wrong with it. -/
def reason : PolygonFault → String
  | .noVertices => "a polygon needs at least one vertex"
  | .noSides => "a regular polygon needs at least one side"

/-- The message of a polygon without an outline. -/
def message (f : PolygonFault) : String := "Invalid geometry in " ++ f.kind ++ ": " ++ f.reason

end PolygonFault

/-- The vertices of a polygon, in order. Vertices that are given are taken as
they are, even if there are none. -/
def PolygonForm.vertices : PolygonForm → Except PolygonFault (List (Point Float32))
  | .points ps => .ok ps
  | .regular center radius sides rotation =>
    if sides = 0 then .error .noSides else .ok (ngon center radius sides rotation)

/-- The outline of a polygon. -/
inductive Outline (α : Type) where
  /-- Two vertices or more, joined into a closed loop. -/
  | loop (vertices : List (Point α))
  /-- A single vertex. -/
  | dot (vertex : Point α)

/-- The outline through some vertices. -/
def Outline.ofVertices {α : Type} : List (Point α) → Except PolygonFault (Outline α)
  | [] => .error .noVertices
  | [p] => .ok (.dot p)
  | p :: q :: rest => .ok (.loop (p :: q :: rest))

end Linework
