import Linework.Command.Json

/-!
# Scenes

A scene is a list of commands. Its document is a record with that list as its
only field, and its text is pretty.
-/

namespace Linework

/-- A scene. -/
structure Scene where
  /-- What it consists of, first drawn first. -/
  commands : List Command
  deriving Repr

namespace Scene

open Json

/-- A scene as it is read. -/
def record : Record Scene where
  title := "Scene"
  template := ⟨[]⟩
  fields := [.of "commands" true (array Command.decode) fun commands s => { s with commands }]

/-- Reads a scene. -/
def read (s : List Char) : Except Fault Scene := Json.document record.decode s

/-- A scene to be written. -/
def document (s : Scene) : Document :=
  .object [("commands", .list (Command.documents s.commands))]

/-- The text of a scene. -/
def write (s : Scene) : List Char := s.document.pretty

/-- Whether two scenes have the same commands, with equal numbers. -/
def agrees (s t : Scene) : Bool := Command.agreesAll s.commands t.commands

/-- The kinds of the commands at the top level. -/
def kinds (s : Scene) : List String := s.commands.map Command.kind

end Scene

end Linework
