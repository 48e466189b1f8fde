import Linework.Command
import Linework.Primitive
import Linework.Settings

/-!
# Drawings in the making

Commands are painted one after another: primitives and diagnostics accumulate in
a drawing, and it remembers the path to the command being painted, which is what
a diagnostic reports. Painting stops at the first polygon that has no outline.
What was painted before stays, and the path is as it was on entry either way.
-/

namespace Linework

/-- A command that was passed over. -/
structure Diagnostic where
  /-- Its index at the top level, then its index in each glow around it. -/
  path : List Nat
  /-- Its kind. -/
  kind : String
  /-- Why it was passed over. -/
  message : String
  deriving DecidableEq, Repr

/-- What has become of the commands so far. -/
structure Drawing where
  /-- What has been painted, in order. -/
  primitives : Array (Primitive Float32)
  /-- What has been passed over, in order. -/
  diagnostics : Array Diagnostic
  /-- The path to the command being painted, innermost index first. -/
  path : List Nat

/-- Nothing painted yet. -/
def Drawing.blank : Drawing := ⟨#[], #[], []⟩

/-- A step of painting. A step that fails still leaves a drawing behind. -/
abbrev Paint (α : Type) : Type := ExceptT PolygonFault (StateM Drawing) α

namespace Paint

/-- Strokes a path as its kind and depth ask for, one primitive per stroke. -/
def path (settings : Settings) (depth : GlowDepth) (kind : PathKind) (color : UInt32)
    (topology : Topology) (vertices : List (Point Float32)) : Paint Unit :=
  let primitives := (settings.glow.strokes depth kind (.ofPacked color)).map fun s =>
    (⟨s.width, s.color, topology, vertices⟩ : Primitive Float32)
  modify fun d => { d with primitives := d.primitives ++ primitives }

/-- Strokes the outline through some vertices. -/
def polygon (settings : Settings) (depth : GlowDepth) (color : UInt32)
    (vertices : List (Point Float32)) : Paint Unit :=
  match Outline.ofVertices vertices with
  | .error fault => throw fault
  | .ok (.loop ps) => path settings depth .outline color .lineLoop ps
  | .ok (.dot p) => path settings depth .outline color .segments [p, p]

/-- Reports the command at the current path as passed over. -/
def skip (command : Command) (message : String) : Paint Unit :=
  modify fun d =>
    { d with diagnostics := d.diagnostics.push ⟨d.path.reverse, command.kind, message⟩ }

/-- Paints the entry of an index: the path leads to it while it is painted, and
no longer, even if it fails. -/
def entry (i : Nat) (step : Paint Unit) : Paint Unit := fun d =>
  let (result, after) := step { d with path := i :: d.path }
  (result, { after with path := after.path.tail })

mutual

/-- Paints a command. -/
def command (settings : Settings) (depth : GlowDepth) : Command → Paint Unit
  | .line start stop color => path settings depth .line color .segments [start, stop]
  | .rect pos size color =>
    (boxEdges pos size).forM fun (a, b) =>
      path settings depth .outline color .segments [a, b]
  | .polygon form color =>
    match form.vertices with
    | .error fault => throw fault
    | .ok vertices => polygon settings depth color vertices
  | .circle center radius color =>
    polygon settings depth color (ngon center radius settings.circleSegments 0)
  | .ellipse center radii color =>
    path settings depth .outline color .lineLoop
      (ellipse center radii settings.ellipseSegments)
  | .glow children => commands settings depth.deeper 0 children
  | .unknown => skip .unknown "unrecognized command kind"

/-- Paints commands, of which the first has index `i`. -/
def commands (settings : Settings) (depth : GlowDepth) : Nat → List Command → Paint Unit
  | _, [] => pure ()
  | i, c :: cs => do
    entry i (command settings depth c)
    commands settings depth (i + 1) cs

end

end Paint

end Linework
