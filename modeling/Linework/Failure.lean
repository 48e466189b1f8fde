import Linework.Compiler
import Linework.Scene
import Linework.Settings.Json

/-!
# What can go wrong between texts and a picture

Four things: the text of settings cannot be read, or what it says cannot be drawn
with; the text of a scene cannot be read, or the scene holds a polygon without an
outline. The readers here take texts, and each reports its own kind of failure.
-/

namespace Linework

/-- Why there is no picture. -/
inductive Failure where
  /-- The text of settings cannot be read. -/
  | unreadable (fault : Json.Fault)
  /-- Settings cannot be drawn with. -/
  | settings (fault : SettingsFault)
  /-- The text of a scene cannot be read. -/
  | scene (fault : Json.Fault)
  /-- A polygon has no outline. -/
  | polygon (fault : PolygonFault)

/-- The message of a failure. -/
def Failure.message : Failure → String
  | .unreadable fault => fault.message
  | .settings fault => fault.message
  | .scene fault => "Scene serialization error: " ++ fault.message
  | .polygon fault => fault.message

/-- The compiler with the settings of a text; without a text they are the default
ones. -/
def Compiler.ofText : Option String → Except Failure Compiler
  | none => .ok .default
  | some s => do
    let settings ← (Settings.read s.toList).mapError .unreadable
    (Compiler.ofSettings settings).mapError .settings

/-- The scene of a text. -/
def Scene.ofText (s : String) : Except Failure Scene := (Scene.read s.toList).mapError .scene

/-- The text of a scene. -/
def Scene.toText (s : Scene) : String := String.ofList s.write

/-- What a scene compiles to. -/
def Scene.compiled (s : Scene) (c : Compiler) : Except Failure Compiled :=
  (c.compile s.commands).mapError .polygon

end Linework
