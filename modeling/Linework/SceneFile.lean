import Linework.Failure

/-!
# Scene files

A scene kept in a file is shown with the default settings. The file may be
missing, it may not be a text, its text may be no scene, or the scene may not
compile; the first three are reported with the name of the file. Without a file
there is a scene to show anyway.
-/

namespace Linework

/-- Why a file cannot be shown. -/
inductive FileError where
  /-- There is no such file. -/
  | missing (path : String)
  /-- The file holds bytes that are no text. -/
  | notText (path : String)
  /-- The text is no scene. -/
  | unreadable (path : String) (fault : Json.Fault)
  /-- The scene does not compile. -/
  | uncompiled (failure : Failure)

/-- The message of a file that cannot be shown. What is wrong with a text is told
twice, once as the failure of the scene and once as its cause. -/
def FileError.message : FileError → String
  | .missing path =>
    "Failed to read scene " ++ path ++ ": No such file or directory (os error 2)"
  | .notText path =>
    "Failed to read scene " ++ path ++ ": stream did not contain valid UTF-8"
  | .unreadable path fault =>
    "Failed to parse scene " ++ path ++ ": " ++ (Failure.scene fault).message ++ ": "
      ++ fault.message
  | .uncompiled failure => failure.message

/-- The display list of a scene, with the default settings. -/
def Scene.displayList (s : Scene) : Except FileError DisplayList := do
  let compiled ← (s.compiled .default).mapError .uncompiled
  return compiled.displayList

/-- The display list of a file, given what it holds if it is there. -/
def showFile (path : String) (contents : Option ByteArray) : Except FileError DisplayList :=
  match contents with
  | none => .error (.missing path)
  | some bytes =>
    match String.fromUTF8? bytes with
    | none => .error (.notText path)
    | some text => do
      let scene ← (Scene.read text.toList).mapError (.unreadable path)
      scene.displayList

/-- The scene that is shown without a file: a frame, a glowing triangle and
circle, an ellipse and a polygon. -/
def demoScene : Scene := ⟨[
  .rect ⟨40, 40⟩ ⟨560, 320⟩ 0x303030ff,
  .glow [
    .line ⟨80, 300⟩ ⟨560, 300⟩ 0xffffffff,
    .line ⟨80, 300⟩ ⟨320, 80⟩ 0xff00ffff,
    .line ⟨320, 80⟩ ⟨560, 300⟩ 0xff00ffff,
    .circle ⟨320, 220⟩ 40 0xffff00ff],
  .ellipse ⟨320, 220⟩ ⟨120, 50⟩ 0xaaffc9ff,
  .polygon (.points [⟨100, 100⟩, ⟨140, 90⟩, ⟨150, 130⟩, ⟨110, 140⟩]) 0xff8080ff]⟩

end Linework
