import Linework.Command
import Linework.Point.Json

/-!
# Commands in documents

A command is an object whose `kind` says what it is. It is read from a value that
has been read whole: what is not an object, or has no known kind, is still an
entry, and nothing in it is looked at. An object of a known kind must have the
fields of that kind. They are looked at in the order of their names; only when
all that are given are right is the first missing one reported, in the order they
are written. Of several members of one name the last one counts, and members of
other names do not matter.

A polygon is given by vertices or, failing that, as a regular one. Why neither
fits is not told.
-/

namespace Linework

open Json

/-- The value of a field that may be left out. -/
def given {α : Type} (name : String) (read : Json → Except Mismatch α)
    (members : List (String × Json)) : Except Mismatch (Option α) :=
  match last? name members with
  | none => .ok none
  | some v => do return some (← read v)

/-- The value of a field that must have been given. -/
def needed {α : Type} (name : String) : Option α → Except Mismatch α
  | none => .error (.missingField name)
  | some x => .ok x

namespace PolygonForm

/-- What messages call the form of a polygon. -/
def title : String := "PolygonShape"

/-- A form given by vertices. The fields are looked up by `field`, which fails
where a field is given in a way that does not count. -/
def points? (field : String → Option (Option Json)) : Option PolygonForm := do
  let v ← (← field "points")
  return .points (← v.toPoints.toOption)

/-- A regular form. Without a rotation it is not turned. -/
def regular? (field : String → Option (Option Json)) : Option PolygonForm := do
  let center ← (← (← field "center")).toPoint.toOption
  let radius ← (← (← field "radius")).toSingle.toOption
  let sides ← (← (← field "sides")).toWord.toOption
  let rotation ← match ← field "rotation" with
    | none => some 0
    | some v => v.toSingle.toOption
  return .regular center radius sides rotation

/-- The form that some fields give. -/
def ofFields (field : String → Option (Option Json)) : Except Mismatch PolygonForm :=
  match points? field with
  | some form => .ok form
  | none =>
    match regular? field with
    | some form => .ok form
    | none => .error (.noVariant title)

/-- A field of a form that stands alone: given twice, it does not count. -/
def lone (members : List (String × Json)) (name : String) : Option (Option Json) :=
  match all name members with
  | [] => some none
  | [v] => some (some v)
  | _ => none

/-- A form that stands alone. -/
def ofJson : Json → Except Mismatch PolygonForm
  | .object members => ofFields (lone members)
  | _ => .error (.noVariant title)

/-- Reads a form that stands alone. -/
def decode : Decoder PolygonForm := fun depth s => do
  let (v, rest) ← value depth s
  return (← (ofJson v).mapError .mismatch, rest)

/-- The members a form is written with. -/
def members : PolygonForm → List (String × Document)
  | .points ps => [("points", .list (ps.map Point.document))]
  | .regular center radius sides rotation =>
    [("center", center.document), ("radius", .single radius), ("sides", .count sides.toNat),
      ("rotation", .single rotation)]

end PolygonForm

namespace Command

/-- The segment that some members give. -/
def lineOf (members : List (String × Json)) : Except Mismatch Command := do
  let color ← given "color" toWord members
  let stop ← given "end" toPoint members
  let start ← given "start" toPoint members
  return .line (← needed "start" start) (← needed "end" stop) (← needed "color" color)

/-- The rectangle that some members give. -/
def rectOf (members : List (String × Json)) : Except Mismatch Command := do
  let color ← given "color" toWord members
  let pos ← given "pos" toPoint members
  let size ← given "size" toPoint members
  return .rect (← needed "pos" pos) (← needed "size" size) (← needed "color" color)

/-- The polygon that some members give. The colour comes before the form. -/
def polygonOf (members : List (String × Json)) : Except Mismatch Command := do
  let color ← needed "color" (← given "color" toWord members)
  let form ← PolygonForm.ofFields fun name => some (last? name members)
  return .polygon form color

/-- The circle that some members give. -/
def circleOf (members : List (String × Json)) : Except Mismatch Command := do
  let center ← given "center" toPoint members
  let color ← given "color" toWord members
  let radius ← given "radius" toSingle members
  return .circle (← needed "center" center) (← needed "radius" radius) (← needed "color" color)

/-- The ellipse that some members give. -/
def ellipseOf (members : List (String × Json)) : Except Mismatch Command := do
  let center ← given "center" toPoint members
  let color ← given "color" toWord members
  let radii ← given "radii" toPoint members
  return .ellipse (← needed "center" center) (← needed "radii" radii) (← needed "color" color)

mutual

/-- The command of a value. -/
def ofJson : Json → Except Mismatch Command
  | .object members =>
    match last? "kind" members with
    | some (.text "line") => lineOf members
    | some (.text "rect") => rectOf members
    | some (.text "polygon") => polygonOf members
    | some (.text "circle") => circleOf members
    | some (.text "ellipse") => ellipseOf members
    | some (.text "glow") => do
      match childrenOf members with
      | none => .error (.missingField "children")
      | some children => return .glow (← children)
    | _ => .ok .unknown
  | _ => .ok .unknown

/-- The commands of the last member named `children`, if there is one. -/
def childrenOf : List (String × Json) → Option (Except Mismatch (List Command))
  | [] => none
  | (key, v) :: rest =>
    match childrenOf rest with
    | some children => some children
    | none => if key = "children" then some (commandsOf v) else none

/-- The commands of a value that should be a list. -/
def commandsOf : Json → Except Mismatch (List Command)
  | .list items => ofItems items
  | v => .error (.wrongType v.found .list)

/-- The commands of several values, up to the first that is wrong. -/
def ofItems : List Json → Except Mismatch (List Command)
  | [] => .ok []
  | v :: vs => do
    let c ← ofJson v
    let cs ← ofItems vs
    return c :: cs

end

/-- Reads a command. -/
def decode : Decoder Command := fun depth s => do
  let (v, rest) ← value depth s
  return (← (ofJson v).mapError .mismatch, rest)

mutual

/-- A command to be written. -/
def document : Command → Document
  | .line start stop color =>
    .object [("kind", .text "line"), ("start", start.document), ("end", stop.document),
      ("color", .count color.toNat)]
  | .rect pos size color =>
    .object [("kind", .text "rect"), ("pos", pos.document), ("size", size.document),
      ("color", .count color.toNat)]
  | .polygon form color =>
    .object (("kind", .text "polygon") :: form.members ++ [("color", .count color.toNat)])
  | .circle center radius color =>
    .object [("kind", .text "circle"), ("center", center.document), ("radius", .single radius),
      ("color", .count color.toNat)]
  | .ellipse center radii color =>
    .object [("kind", .text "ellipse"), ("center", center.document), ("radii", radii.document),
      ("color", .count color.toNat)]
  | .glow children => .object [("kind", .text "glow"), ("children", .list (documents children))]
  | .unknown => .object [("kind", .text "unknown")]

/-- Commands to be written. -/
def documents : List Command → List Document
  | [] => []
  | c :: cs => document c :: documents cs

end

end Command

end Linework
