/-!
# The arithmetic a drawing is computed in

Colours, bounds and fits are formulas over numbers, and the same formulas are
worth having over two kinds of number. A picture is drawn in single precision,
where every operation rounds and a coordinate may be infinite or not a number
at all; what a formula is *meant* to compute is best said over exact numbers.
`Scalar` lists the operations the formulas use, and nothing about them: no law
is assumed, because single precision satisfies hardly any.

Two minima are in use and they differ. `minNum` and `maxNum` ignore an operand
that is not a number; the corner-wise minima of `Point` are plain comparisons
and do not.
-/

namespace Linework

/-- The operations a drawing's formulas need of its numbers. -/
class Scalar (α : Type) extends Add α, Sub α, Mul α, Div α, Neg α, LT α, LE α, BEq α where
  /-- Strict comparison can be decided. -/
  decLt : DecidableLT α
  /-- Weak comparison can be decided. -/
  decLe : DecidableLE α
  /-- The number of a count; a formula's constants are written with it. -/
  ofNat : Nat → α
  /-- The greatest whole number not above. -/
  floor : α → α
  /-- The nearest whole number, a half going away from zero. -/
  round : α → α
  /-- The whole part as a count: negative numbers and whatever is not a number
  count as zero. -/
  toNat : α → Nat

attribute [reducible, instance] Scalar.decLt Scalar.decLe

namespace Scalar

variable {α : Type} [Scalar α]

/-- The lesser of two numbers, and the other one if one is not a number. Of two
equal numbers it is the first. -/
def minNum (a b : α) : α :=
  if a == a then (if b < a then b else a) else b

/-- The greater of two numbers, and the other one if one is not a number. Of two
equal numbers it is the first. -/
def maxNum (a b : α) : α :=
  if a == a then (if a < b then b else a) else b

/-- The number moved into the interval from `lo` to `hi`. What is not a number
compares with nothing and stays as it is. -/
def clamp (x lo hi : α) : α :=
  if x < lo then lo else if hi < x then hi else x

/-- The part of a number after its point, with the number's sign. -/
def fract (x : α) : α :=
  if x < ofNat 0 then -(-x - floor (-x)) else x - floor x

/-- A number's position on a circle of circumference one. A tiny negative
number may round up to one full turn. -/
def turn (x : α) : α :=
  let r := fract x
  if r < ofNat 0 then r + ofNat 1 else r

/-- The least difference that counts: below it two channels are taken to be
equal. It is the spacing of single precision just above one. -/
def epsilon : α := ofNat 1 / ofNat 8388608

end Scalar

/-- Single precision, the arithmetic a picture is drawn in. -/
instance : Scalar Float32 where
  decLt := inferInstance
  decLe := inferInstance
  ofNat := Float32.ofNat
  floor := Float32.floor
  round := Float32.round
  toNat x := x.toUInt64.toNat

end Linework
