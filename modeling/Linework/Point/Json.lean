import Linework.Json.Document
import Linework.Json.Record
import Linework.Point

/-!
# Points in documents

A point is a list of its two coordinates. It is read in two ways. Straight from a
text, it is a list of exactly two numbers, and whatever follows them is out of
place in the text. From a value that has been read already, a list that is too
long is a list of the wrong length.
-/

namespace Linework

namespace Point

open Json

/-- The two coordinates, as the fields of a list. -/
def coordinates : List (RecordField (Point Float32)) :=
  [.of "x" true single fun x p => { p with x }, .of "y" true single fun y p => { p with y }]

/-- Reads a point from a text. -/
def decode : Decoder (Point Float32) := fun depth s =>
  match skipBlanks s with
  | [] => .error (.unfinished .value)
  | '[' :: rest => opening depth (fun d => positional .pair d coordinates 0 (.splat 0)) rest
  | other => .error (mismatchAt .pair other)

/-- A point to be written. -/
def document (p : Point Float32) : Document := .list [.single p.x, .single p.y]

end Point

namespace Json

/-- A value as a number in single precision. -/
def toSingle : Json → Except Mismatch Float32
  | .number n => .ok n.toSingle
  | v => .error (.wrongType v.found .single)

/-- A value as a number of 32 bits. -/
def toWord : Json → Except Mismatch UInt32
  | .number n => n.toWord
  | v => .error (.wrongType v.found .word)

/-- A value as a point. The coordinates are looked at before the length. -/
def toPoint : Json → Except Mismatch (Point Float32)
  | .list [] => .error (.wrongLength 0 .pair)
  | .list [x] => do
    let _ ← x.toSingle
    .error (.wrongLength 1 .pair)
  | .list (x :: y :: more) => do
    let x ← x.toSingle
    let y ← y.toSingle
    if more.isEmpty then return ⟨x, y⟩
    else .error (.wrongLength (2 + more.length) (.elements 2))
  | v => .error (.wrongType v.found .pair)

/-- A value as a list of points. -/
def toPoints : Json → Except Mismatch (List (Point Float32))
  | .list items => items.mapM toPoint
  | v => .error (.wrongType v.found .list)

end Json

end Linework
