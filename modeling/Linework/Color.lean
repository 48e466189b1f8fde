import Linework.Color.Hsv

/-!
# Colours

A colour has four channels of eight bits, red, green, blue and opacity. Scenes
give it packed into one word, red in the highest byte. Brightening multiplies a
colour's value – the largest channel – and leaves hue, saturation and opacity
alone; the value stops at one, and what comes back is rounded to the nearest
channel.
-/

namespace Linework

/-- A colour with eight bits per channel. -/
structure Color where
  /-- Red. -/
  r : UInt8
  /-- Green. -/
  g : UInt8
  /-- Blue. -/
  b : UInt8
  /-- Opacity. -/
  a : UInt8
  deriving DecidableEq, Repr

namespace Color

/-- The colour of a packed word. -/
def ofPacked (w : UInt32) : Color :=
  ⟨(w >>> 24).toUInt8, (w >>> 16).toUInt8, (w >>> 8).toUInt8, w.toUInt8⟩

/-- The packed word of a colour. -/
def packed (c : Color) : UInt32 :=
  c.r.toUInt32 <<< 24 ||| c.g.toUInt32 <<< 16 ||| c.b.toUInt32 <<< 8 ||| c.a.toUInt32

section

variable {α : Type} [Scalar α]

open Scalar

/-- A channel as a fraction of one. -/
def fraction (n : UInt8) : α := ofNat n.toNat / ofNat 255

/-- The channel nearest to a fraction of one. -/
def channel (x : α) : UInt8 :=
  UInt8.ofNat (min (toNat (round (clamp x (ofNat 0) (ofNat 1) * ofNat 255))) 255)

/-- The colour with its value multiplied, up to full value. -/
def brighten (c : Color) (multiplier : α) : Color :=
  let hsv := Rgb.toHsv ⟨fraction c.r, fraction c.g, fraction c.b⟩
  let rgb := Hsv.toRgb { hsv with value := minNum (hsv.value * multiplier) (ofNat 1) }
  ⟨channel rgb.red, channel rgb.green, channel rgb.blue, c.a⟩

end

end Color

end Linework
