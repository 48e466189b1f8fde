import Linework.Scalar

/-!
# Exact arithmetic

The rational numbers as a `Scalar`. Nothing is drawn in them. They are what a
formula is measured against: over the rationals nothing rounds and every number
is a number, so a statement about the formula itself – that a colour comes back
from its hue, that a picture stays inside its window – can be made and decided
without an error term.
-/

namespace Linework

/-- Rounding to the nearest whole number, a half going away from zero: the
floor of half more, taken on the absolute value. -/
def roundHalfAway (x : Rat) : Int :=
  if x < 0 then -(-x + 1 / 2).floor else (x + 1 / 2).floor

/-- The rationals, where every operation is exact. -/
instance : Scalar Rat where
  decLt := inferInstance
  decLe := inferInstance
  ofNat n := n
  floor x := x.floor
  round x := roundHalfAway x
  toNat x := x.floor.toNat

end Linework
