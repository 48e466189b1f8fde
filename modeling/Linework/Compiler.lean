import Linework.Drawing

/-!
# Compiling

A compiler holds settings that can be drawn with. It turns a list of commands
into a display list, together with what was passed over, or fails at the first
polygon that has no outline.
-/

namespace Linework

/-- Settings without fault. -/
structure Compiler where
  /-- The settings. -/
  settings : Settings
  /-- Nothing is wrong with them. -/
  valid : settings.fault? = none

/-- What a list of commands compiles to. -/
structure Compiled where
  /-- The picture. -/
  displayList : DisplayList
  /-- The commands that were passed over, in order. -/
  diagnostics : List Diagnostic
  deriving DecidableEq, Repr

namespace Compiler

/-- The compiler with some settings. -/
def ofSettings (settings : Settings) : Except SettingsFault Compiler :=
  match h : settings.fault? with
  | none => .ok ⟨settings, h⟩
  | some fault => .error fault

/-- The compiler with the default settings. -/
def default : Compiler := ⟨.default, by rfl⟩

/-- Compiles a list of commands. -/
def compile (c : Compiler) (commands : List Command) : Except PolygonFault Compiled :=
  match (Paint.commands c.settings .none 0 commands).run Drawing.blank with
  | (.error fault, _) => .error fault
  | (.ok (), drawing) => .ok ⟨drawing.primitives.toList, drawing.diagnostics.toList⟩

end Compiler

end Linework
