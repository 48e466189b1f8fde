import Linework.Color.Json
import Linework.Primitive
import Linework.Point.Json

/-!
# Display lists in documents

A primitive is a record; a display list is a list of them. How vertices are
joined is given by one of two names, either alone or as the only member of an
object that holds nothing.
-/

namespace Linework

open Json

namespace Topology

/-- The name of a topology. -/
def name : Topology → String
  | .segments => "Segments"
  | .lineLoop => "LineLoop"

/-- The topology of a name. -/
def ofName (s : String) : Except Mismatch Topology :=
  if s = name .segments then .ok .segments
  else if s = name .lineLoop then .ok .lineLoop
  else .error (.unknownVariant s (name .segments) (name .lineLoop))

/-- Reads the name of a topology, after its opening quote. -/
def named : Reader Topology := fun s => do
  let (key, rest) ← stringText s
  return (← (ofName key).mapError .mismatch, rest)

/-- Reads the absent value. -/
def nothing (s : List Char) : Except Fault (List Char) :=
  match skipBlanks s with
  | [] => .error (.unfinished .value)
  | 'n' :: rest => word ['u', 'l', 'l'] rest
  | other => .error (mismatchAt .unit other)

/-- Reads a topology that is the only member of an object, after its opening
brace. -/
def sole : Reader Topology := fun s => do
  let (topology, rest) ← match skipBlanks s with
    | [] => .error (.unfinished .value)
    | '"' :: rest => named rest
    | other => .error (mismatchAt .variant other)
  match skipBlanks (← nothing (← colon rest)) with
  | [] => .error (.unfinished .object)
  | '}' :: rest => return (topology, rest)
  | _ => .error (.malformed .expectedValue)

/-- Reads a topology. -/
def decode : Decoder Topology := fun depth s =>
  match skipBlanks s with
  | [] => .error (.unfinished .value)
  | '"' :: rest => named rest
  | '{' :: rest => opening depth (fun _ => sole) rest
  | _ => .error (.malformed .expectedValue)

/-- A topology to be written. -/
def document (t : Topology) : Document := .text t.name

end Topology

namespace Primitive

/-- A primitive as it is read. -/
def record : Record (Primitive Float32) where
  title := "DrawOp"
  template := ⟨0, ⟨0, 0, 0, 0⟩, .segments, []⟩
  fields := [
    .of "width" true single fun width p => { p with width },
    .of "color" true Color.record.decode fun color p => { p with color },
    .of "topology" true Topology.decode fun topology p => { p with topology },
    .of "vertices" true (array Point.decode) fun vertices p => { p with vertices }]

/-- Reads a primitive. -/
def read (s : List Char) : Except Fault (Primitive Float32) := Json.document record.decode s

/-- A primitive to be written. -/
def document (p : Primitive Float32) : Document :=
  .object [("width", .single p.width), ("color", p.color.document),
    ("topology", p.topology.document), ("vertices", .list (p.vertices.map Point.document))]

end Primitive

namespace DisplayList

/-- Reads a display list. -/
def read (s : List Char) : Except Fault DisplayList :=
  Json.document (array Primitive.record.decode) s

/-- A display list to be written. -/
def document (ps : DisplayList) : Document := .list (ps.map Primitive.document)

/-- The text of a display list, without blanks. -/
def write (ps : DisplayList) : List Char := (document ps).compact

end DisplayList

end Linework
