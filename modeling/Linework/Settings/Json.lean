import Linework.Json.Document
import Linework.Json.Record
import Linework.Settings

/-!
# Settings in documents

Settings override the default ones: any of the fields may be left out. A glow is
given whole, apart from the question whether it is for every shape, which it is
not unless it says so.
-/

namespace Linework

open Json

/-- A pass as it is read. -/
def Pass.record : Record Pass where
  title := "GlowPass"
  template := ⟨0, 0⟩
  fields := [
    .of "width" true single fun width p => { p with width },
    .of "brightness" true single fun brightness p => { p with brightness }]

/-- A pass to be written. -/
def Pass.document (p : Pass) : Document :=
  .object [("width", .single p.width), ("brightness", .single p.brightness)]

/-- A glow as it is read. -/
def Glow.record : Record Glow where
  title := "GlowStyle"
  template := ⟨[], false⟩
  fields := [
    .of "passes" true (array Pass.record.decode) fun passes g => { g with passes },
    .of "apply_to_all_shapes" false boolean fun everyShape g => { g with everyShape }]

/-- A glow to be written. -/
def Glow.document (g : Glow) : Document :=
  .object [("passes", .list (g.passes.map Pass.document)),
    ("apply_to_all_shapes", .bool g.everyShape)]

namespace Settings

/-- Settings as they are read. -/
def record : Record Settings where
  title := "CompilerConfig"
  template := .default
  fields := [
    .of "circle_segments" false word32 fun n s => { s with circleSegments := n },
    .of "ellipse_segments" false word32 fun n s => { s with ellipseSegments := n },
    .of "glow" false Glow.record.decode fun glow s => { s with glow }]

/-- Reads settings. -/
def read (s : List Char) : Except Fault Settings := Json.document record.decode s

/-- Settings to be written. -/
def document (s : Settings) : Document :=
  .object [("circle_segments", .count s.circleSegments.toNat),
    ("ellipse_segments", .count s.ellipseSegments.toNat), ("glow", s.glow.document)]

/-- The text of settings, without blanks. -/
def write (s : Settings) : List Char := s.document.compact

end Settings

end Linework
