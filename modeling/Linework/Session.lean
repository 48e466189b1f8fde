import Linework.Failure

/-!
# Editing sessions

A session stands for whoever uses this library over some time: an editor, or a
script that drives it. The library itself keeps nothing between one call and the
next. Its user does, and what there is to keep are a compiler and a scene. So a step
is either one of the calls, made with what is kept, or a change that the user makes
to the list of commands, which is theirs to change: something added at its end or
dropped there, the whole turned around or put into a glow.

A step that fails reports why and changes nothing, and the session goes on. Other
than that a session has no rules of its own. What holds of a step is what holds of
the call it makes.
-/

namespace Linework

/-- What a session works on. -/
structure Session where
  /-- What the scene is compiled with. -/
  compiler : Compiler
  /-- The scene being edited. -/
  scene : Scene

/-- The default compiler and an empty scene. -/
def Session.start : Session := ⟨.default, ⟨[]⟩⟩

/-- A step of a session. -/
inductive Step where
  /-- Takes other settings, from a text or the default ones. -/
  | configure (text : Option String)
  /-- Takes another scene. -/
  | load (text : String)
  /-- Adds the commands of another scene at the end. -/
  | append (text : String)
  /-- Adds a command at the end. -/
  | push (command : Command)
  /-- Drops the last command, if there is one. -/
  | pop
  /-- Turns the order of the commands around, at the top level. -/
  | reverse
  /-- Puts all commands into one glow. -/
  | wrap
  /-- Writes the scene and reads it back. -/
  | reload
  /-- Asks for the scene's text. -/
  | write
  /-- Asks for the scene's picture. -/
  | compile

/-- What a step answers. -/
inductive Answer where
  /-- The kinds of the commands at the top level after a change. -/
  | kinds (names : List String)
  /-- A text. -/
  | text (s : String)
  /-- A picture. -/
  | compiled (c : Compiled)

namespace Session

/-- The answer of a step that leaves this session. -/
def changed (s : Session) : Session × Answer := (s, .kinds s.scene.kinds)

/-- The session after a step, and what the step answers. -/
def after (s : Session) : Step → Except Failure (Session × Answer)
  | .configure text => do return changed { s with compiler := ← Compiler.ofText text }
  | .load text => do return changed { s with scene := ← Scene.ofText text }
  | .append text => do
    let more ← Scene.ofText text
    return changed { s with scene := ⟨s.scene.commands ++ more.commands⟩ }
  | .push command => .ok (changed { s with scene := ⟨s.scene.commands ++ [command]⟩ })
  | .pop => .ok (changed { s with scene := ⟨s.scene.commands.dropLast⟩ })
  | .reverse => .ok (changed { s with scene := ⟨s.scene.commands.reverse⟩ })
  | .wrap => .ok (changed { s with scene := ⟨[.glow s.scene.commands]⟩ })
  | .reload => do return changed { s with scene := ← Scene.ofText s.scene.toText }
  | .write => .ok (s, .text s.scene.toText)
  | .compile => do return (s, .compiled (← s.scene.compiled s.compiler))

/-- Takes a step. -/
def step (s : Session) (t : Step) : Session × Except Failure Answer :=
  match s.after t with
  | .ok (next, answer) => (next, .ok answer)
  | .error e => (s, .error e)

/-- The answers of several steps. -/
def run : Session → List Step → List (Except Failure Answer)
  | _, [] => []
  | s, t :: ts =>
    let (next, answer) := s.step t
    answer :: run next ts

end Session

end Linework
