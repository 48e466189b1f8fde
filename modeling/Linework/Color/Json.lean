import Linework.Color
import Linework.Json.Document
import Linework.Json.Record

/-!
# Colours in documents

A colour is a record of its four channels.
-/

namespace Linework.Color

open Json

/-- A colour as it is read. -/
def record : Record Color where
  title := "Rgba8"
  template := ⟨0, 0, 0, 0⟩
  fields := [
    .of "r" true byte fun r c => { c with r },
    .of "g" true byte fun g c => { c with g },
    .of "b" true byte fun b c => { c with b },
    .of "a" true byte fun a c => { c with a }]

/-- A colour to be written. -/
def document (c : Color) : Document :=
  .object [("r", .count c.r.toNat), ("g", .count c.g.toNat), ("b", .count c.b.toNat),
    ("a", .count c.a.toNat)]

end Linework.Color
