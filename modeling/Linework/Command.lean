import Linework.Outline

/-!
# Commands

A scene is a list of commands. Most of them are shapes with a colour, packed as
`Color.ofPacked` takes it. A glow is a scope around commands of its own, and
scopes nest, so a list of commands is a forest. An entry that nobody knows what
to do with is a command too, so that it keeps its place in the list.
-/

namespace Linework

/-- An entry of a scene. -/
inductive Command where
  /-- A segment. -/
  | line (start stop : Point Float32) (color : UInt32)
  /-- The outline of an upright rectangle; the size may be negative. -/
  | rect (pos size : Point Float32) (color : UInt32)
  /-- The outline of a polygon. -/
  | polygon (form : PolygonForm) (color : UInt32)
  /-- A circle. -/
  | circle (center : Point Float32) (radius : Float32) (color : UInt32)
  /-- An upright ellipse. -/
  | ellipse (center radii : Point Float32) (color : UInt32)
  /-- A scope in which shapes glow. -/
  | glow (children : List Command)
  /-- An entry that is no command. -/
  | unknown
  deriving Repr

/-- Whether two polygons are given alike, with equal numbers. -/
def PolygonForm.agrees : PolygonForm → PolygonForm → Bool
  | .points ps, .points qs =>
    ps.length == qs.length && (ps.zip qs).all fun (p, q) => p.agrees q
  | .regular c r n t, .regular c' r' n' t' => c.agrees c' && r == r' && n == n' && t == t'
  | _, _ => false

namespace Command

/-- The name of a command's kind. -/
def kind : Command → String
  | .line .. => "line"
  | .rect .. => "rect"
  | .polygon .. => "polygon"
  | .circle .. => "circle"
  | .ellipse .. => "ellipse"
  | .glow .. => "glow"
  | .unknown => "unknown"

/-- A command with so many glow scopes around it. -/
def wrapped (c : Command) : Nat → Command
  | 0 => c
  | n + 1 => .glow [c.wrapped n]

mutual

/-- Whether two commands are of one kind, with equal numbers: zeros of either
sign are equal, and what is not a number equals nothing. -/
def agrees : Command → Command → Bool
  | .line a b c, .line a' b' c' => a.agrees a' && b.agrees b' && c == c'
  | .rect p s c, .rect p' s' c' => p.agrees p' && s.agrees s' && c == c'
  | .polygon s c, .polygon s' c' => s.agrees s' && c == c'
  | .circle p r c, .circle p' r' c' => p.agrees p' && r == r' && c == c'
  | .ellipse p r c, .ellipse p' r' c' => p.agrees p' && r.agrees r' && c == c'
  | .glow cs, .glow cs' => agreesAll cs cs'
  | .unknown, .unknown => true
  | _, _ => false

/-- Whether two lists of commands are alike, one by one. -/
def agreesAll : List Command → List Command → Bool
  | [], [] => true
  | c :: cs, c' :: cs' => agrees c c' && agreesAll cs cs'
  | _, _ => false

end

end Command

end Linework
