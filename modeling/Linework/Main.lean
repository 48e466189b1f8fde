import Linework.Primitive.Json
import Linework.SceneFile

/-!
# The command line

Shows a scene as a display list: the scene of the file named first on the command
line, or the demo scene.
-/

open Linework

/-- What a file holds, if it can be read. -/
def contentsOf (path : String) : IO (Option ByteArray) :=
  try
    return some (← IO.FS.readBinFile path)
  catch _ =>
    return none

/-- Writes the display list, or a message and a failing exit code. -/
def main (args : List String) : IO UInt32 := do
  let shown ← match args with
    | [] => pure demoScene.displayList
    | path :: _ => pure (showFile path (← contentsOf path))
  match shown with
  | .ok picture =>
    IO.println (String.ofList (DisplayList.write picture))
    return 0
  | .error e =>
    IO.eprintln e.message
    return 1
