import Linework.Color
import Linework.Point

/-!
# Primitives

What a scene becomes: a list of primitives, each of which strokes straight edges
of one width and colour. The edges of a primitive are implied by its vertices.
They are either taken in pairs, one segment each, or joined in a loop that closes
by itself.
-/

namespace Linework

/-- How vertices are joined. -/
inductive Topology where
  /-- Two by two. -/
  | segments
  /-- Each to the next, and the last to the first. -/
  | lineLoop
  deriving DecidableEq, Repr

/-- Edges stroked in one go. -/
structure Primitive (α : Type) where
  /-- How wide the stroke is. -/
  width : α
  /-- Its colour. -/
  color : Color
  /-- How the vertices are joined. -/
  topology : Topology
  /-- The vertices, in order. -/
  vertices : List (Point α)
  deriving DecidableEq, Repr

/-- The primitives of a picture, first drawn first. -/
abbrev DisplayList : Type := List (Primitive Float32)

/-- Elements two by two; one left over is dropped. -/
def pairs {α : Type} : List α → List (α × α)
  | a :: b :: rest => (a, b) :: pairs rest
  | _ => []

/-- Each element with the next, and the last with the first. -/
def cycle {α : Type} (xs : List α) : List (α × α) := xs.zip (xs.drop 1 ++ xs.take 1)

@[simp] theorem length_pairs {α : Type} : ∀ xs : List α, (pairs xs).length = xs.length / 2
  | [] => by simp [pairs]
  | [_] => by simp [pairs]
  | _ :: _ :: rest => by
    simp only [pairs, List.length_cons, length_pairs rest]
    omega

@[simp] theorem length_cycle {α : Type} (xs : List α) : (cycle xs).length = xs.length := by
  simp only [cycle, List.length_zip, List.length_append, List.length_drop, List.length_take]
  omega

/-- The edges of a primitive, by their ends. -/
def Primitive.edges {α : Type} (p : Primitive α) : List (Point α × Point α) :=
  match p.topology with
  | .segments => pairs p.vertices
  | .lineLoop => cycle p.vertices

/-- All vertices of some primitives, in order. -/
def verticesOf {α : Type} (ps : List (Primitive α)) : List (Point α) :=
  ps.flatMap (·.vertices)

end Linework
