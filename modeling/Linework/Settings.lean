import Linework.Decimal.Layout
import Linework.Stroke

/-!
# Settings

How fine curves are drawn and how glow looks. Not all settings can be drawn with:
curves need segments, and glow needs passes of a positive width.
`Settings.fault?` finds the first thing that is wrong, in the order of the fields
and then of the passes, looking at a pass's width before its brightness.
-/

namespace Linework

/-- How scenes are drawn. -/
structure Settings where
  /-- How many segments a circle has. -/
  circleSegments : UInt32
  /-- How many segments an ellipse has. -/
  ellipseSegments : UInt32
  /-- How glow looks. -/
  glow : Glow
  deriving DecidableEq, Repr

/-- Forty segments for either curve, and the default glow. -/
def Settings.default : Settings where
  circleSegments := 40
  ellipseSegments := 40
  glow := .default

/-- What is wrong with settings. -/
inductive SettingsFault where
  /-- Circles have no segments. -/
  | noCircleSegments
  /-- Ellipses have no segments. -/
  | noEllipseSegments
  /-- Glow has no passes. -/
  | noPasses
  /-- A pass's width is not a positive number. -/
  | width (pass : Nat) (width : Float32)
  /-- A pass's brightness is not a number from zero up. -/
  | brightness (pass : Nat) (brightness : Float32)
  deriving DecidableEq, Repr

namespace SettingsFault

/-- Numbers in these messages are written out in full, without a fraction where
they are whole; of two equally near decimals the one further from zero is
written. -/
def layout : Layout where
  tie := .away
  positional _ := true
  fraction := false
  nan := "NaN".toList
  infinity negative := if negative then "-inf".toList else "inf".toList

/-- The field at fault. -/
def field : SettingsFault → String
  | .noCircleSegments => "circle_segments"
  | .noEllipseSegments => "ellipse_segments"
  | .noPasses => "glow.passes"
  | .width _ _ => "glow.passes"
  | .brightness _ _ => "glow.passes"

/-- What is wrong with it. -/
def reason : SettingsFault → String
  | .noCircleSegments => "must be a positive integer"
  | .noEllipseSegments => "must be a positive integer"
  | .noPasses => "at least one pass is required"
  | .width pass w =>
    "pass " ++ toString pass ++ " has non-positive width " ++ String.ofList (layout.single w)
  | .brightness pass b =>
    "pass " ++ toString pass ++ " has negative brightness " ++ String.ofList (layout.single b)

/-- The message of faulty settings. -/
def message (f : SettingsFault) : String :=
  "Invalid configuration for `" ++ f.field ++ "`: " ++ f.reason

end SettingsFault

namespace Pass

/-- A width to draw with is positive and finite. -/
def widthIsFine (p : Pass) : Bool := 0 < p.width && p.width.isFinite

/-- A brightness to draw with is zero or more, and finite. -/
def brightnessIsFine (p : Pass) : Bool := 0 ≤ p.brightness && p.brightness.isFinite

/-- The first fault among some passes, of which the first has number `i`. -/
def fault? : Nat → List Pass → Option SettingsFault
  | _, [] => none
  | i, p :: ps =>
    if !p.widthIsFine then some (.width i p.width)
    else if !p.brightnessIsFine then some (.brightness i p.brightness)
    else fault? (i + 1) ps

end Pass

/-- The first fault of some settings. -/
def Settings.fault? (s : Settings) : Option SettingsFault :=
  if s.circleSegments = 0 then some .noCircleSegments
  else if s.ellipseSegments = 0 then some .noEllipseSegments
  else if s.glow.passes.isEmpty then some .noPasses
  else Pass.fault? 0 s.glow.passes

end Linework
