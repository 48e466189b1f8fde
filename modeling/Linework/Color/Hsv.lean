import Linework.Scalar

/-!
# Hue, saturation and value

A colour's channels as fractions of one, and the same colour as hue, saturation
and value, all three as fractions too: a hue of one is a full turn. The formulas
are the usual ones and are stated for any numbers. Channels closer together than
`Scalar.epsilon` count as grey, which has hue and saturation zero, and a
saturation that small is taken for grey on the way back.
-/

namespace Linework

/-- A colour by its channels. -/
structure Rgb (α : Type) where
  /-- Red. -/
  red : α
  /-- Green. -/
  green : α
  /-- Blue. -/
  blue : α
  deriving DecidableEq, Repr

/-- A colour by hue, saturation and value. -/
structure Hsv (α : Type) where
  /-- The position on the colour circle; one is a full turn. -/
  hue : α
  /-- How far from grey. -/
  saturation : α
  /-- The largest channel. -/
  value : α
  deriving DecidableEq, Repr

variable {α : Type} [Scalar α]

open Scalar

/-- Hue, saturation and value of a colour. The hue is measured from the largest
channel, by how the other two differ; red comes first if channels tie. -/
def Rgb.toHsv (c : Rgb α) : Hsv α :=
  let max := maxNum (maxNum c.red c.green) c.blue
  let min := minNum (minNum c.red c.green) c.blue
  let range := max - min
  if range ≤ epsilon then ⟨ofNat 0, ofNat 0, max⟩
  else
    let sector :=
      if max == c.red then
        (c.green - c.blue) / range + (if c.green < c.blue then ofNat 6 else ofNat 0)
      else if max == c.green then (c.blue - c.red) / range + ofNat 2
      else (c.red - c.green) / range + ofNat 4
    ⟨sector / ofNat 6, range / max, max⟩

/-- The channels of a colour. The circle of hues has six sectors; in each, one
channel is at the value, one at the floor `p`, and one rises (`t`) or falls (`q`)
between them. -/
def Hsv.toRgb (c : Hsv α) : Rgb α :=
  let v := c.value
  if c.saturation ≤ epsilon then ⟨v, v, v⟩
  else
    let h := turn c.hue * ofNat 6
    let sector := floor h
    let f := h - sector
    let p := v * (ofNat 1 - c.saturation)
    let q := v * (ofNat 1 - c.saturation * f)
    let t := v * (ofNat 1 - c.saturation * (ofNat 1 - f))
    match min (toNat sector) 0xffffffff % 6 with
    | 0 => ⟨v, t, p⟩
    | 1 => ⟨q, v, p⟩
    | 2 => ⟨p, v, t⟩
    | 3 => ⟨p, q, v⟩
    | 4 => ⟨t, p, v⟩
    | _ => ⟨v, p, q⟩

end Linework
