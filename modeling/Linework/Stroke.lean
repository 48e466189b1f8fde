import Linework.Color

/-!
# Strokes and glow

A path is stroked once, in its own colour, unless it glows. A glowing path is
stroked several times over, in the order of the passes: usually wide and dim
first, narrow and bright last. Whether a path glows depends on the glow scopes
open around it and on what kind of path it is. Lines glow in any scope, outlines
only if the glow is for every shape.

Scopes nest, but glow does not add up: all that matters is whether some scope is
open. They are counted in 32 bits, and the count stops at the greatest one rather
than starting over, so that a scope once open never seems closed.
-/

namespace Linework

/-- One of the strokes of a glowing path. -/
structure Pass where
  /-- How wide the stroke is. -/
  width : Float32
  /-- What the colour's value is multiplied by. -/
  brightness : Float32
  deriving DecidableEq, Repr

/-- How glowing paths look. -/
structure Glow where
  /-- The strokes of a glowing path, in the order they are drawn. -/
  passes : List Pass
  /-- Whether outlines glow as well as lines. -/
  everyShape : Bool
  deriving DecidableEq, Repr

/-- Three passes, narrowing and brightening, on lines only. -/
def Glow.default : Glow where
  passes := [⟨3.0, 0.1⟩, ⟨2.0, 0.6⟩, ⟨0.5, 1.3⟩]
  everyShape := false

/-- How many glow scopes are open around a command. -/
structure GlowDepth where
  /-- Their number, as far as it is counted. -/
  count : UInt32
  deriving DecidableEq, Repr

namespace GlowDepth

/-- No scope is open. -/
def none : GlowDepth := ⟨0⟩

/-- One more scope is open. -/
def deeper (d : GlowDepth) : GlowDepth :=
  ⟨if d.count = 0xffffffff then d.count else d.count + 1⟩

/-- Whether any scope is open. -/
def isOpen (d : GlowDepth) : Bool := 0 < d.count

@[simp] theorem isOpen_none : none.isOpen = false := rfl

/-- **A scope once open stays open.** The count never wraps around. -/
@[simp] theorem isOpen_deeper (d : GlowDepth) : d.deeper.isOpen = true := by
  obtain ⟨n⟩ := d
  simp only [isOpen, deeper, decide_eq_true_eq]
  split
  · next h => rw [h]; decide
  · next h =>
    have hn : n.toNat ≠ 4294967295 := fun hn => h (UInt32.toNat_inj.1 hn)
    have hlt := n.toNat_lt
    rw [UInt32.lt_iff_toNat_lt, UInt32.toNat_add, UInt32.toNat_one, UInt32.toNat_zero]
    omega

end GlowDepth

/-- The two kinds of path that glow tells apart. -/
inductive PathKind where
  /-- A single segment. -/
  | line
  /-- The outline of anything else. -/
  | outline
  deriving DecidableEq, Repr

/-- A stroke along some path. -/
structure Stroke where
  /-- How wide it is. -/
  width : Float32
  /-- Its colour. -/
  color : Color
  deriving DecidableEq, Repr

/-- The width of a stroke that does not glow. -/
def baseWidth : Float32 := 1.0

namespace Glow

/-- Whether a path of a kind glows at a depth. -/
def appliesTo (glow : Glow) (depth : GlowDepth) (kind : PathKind) : Bool :=
  depth.isOpen && (kind == .line || glow.everyShape)

/-- The strokes along a path: one for each pass if it glows, and otherwise a
single one of the base width in the path's own colour. -/
def strokes (glow : Glow) (depth : GlowDepth) (kind : PathKind) (color : Color) :
    List Stroke :=
  if glow.appliesTo depth kind then
    glow.passes.map fun pass => ⟨pass.width, color.brighten pass.brightness⟩
  else [⟨baseWidth, color⟩]

end Glow

end Linework
