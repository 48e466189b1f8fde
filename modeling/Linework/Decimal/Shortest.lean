import Linework.Binary

/-!
# The fewest digits that read back

A binary number is written with as few decimal digits as identify it: any
decimal that lies closer to it than to its neighbours reads back to it, and the
one on the coarsest power-of-ten grid is taken. Two points of that grid can
qualify; then the nearer one is, and a dead heat is the writer's to decide.

Everything is measured in quarters of the number's unit, in which the number,
its neighbourhood and every grid point are whole multiples of a common step. The
coarsest grid is found by trying one after another, from above the number down
to a grid the number itself lies on. If a grid has any point in the
neighbourhood, one of the number's two neighbours on the grid is in it too, so
two points are all that a grid is tried with.
-/

namespace Linework

/-- The decimal number `digits · 10 ^ exponent`. -/
structure Decimal where
  /-- The digits, as one whole number. -/
  digits : Nat
  /-- The power of ten the last digit counts. -/
  exponent : Int
  deriving DecidableEq, Repr

/-- Which of two equally near decimals is written. -/
inductive Tie where
  /-- The one whose last digit is even. -/
  | toEven
  /-- The one further from zero. -/
  | away
  deriving DecidableEq, Repr

namespace Decimal

/-- How many decimal digits a whole number has; zero has one. -/
def width (n : Nat) : Nat := (Nat.toDigits 10 n).length

/-- The decimal exponent of the first digit. -/
def leadingExponent (d : Decimal) : Int := d.exponent + (width d.digits : Nat) - 1

/-- The neighbourhood of a binary number: the reals that round to it, whose
centre is `4 · units` quarters of `2 ^ exponent`. -/
structure Neighbourhood where
  /-- The number's whole count of units. -/
  units : Nat
  /-- The exponent of the unit. -/
  exponent : Int
  /-- How many quarters the neighbourhood reaches below: one where the unit
  halves just below the number, else two. -/
  below : Nat
  deriving DecidableEq, Repr

namespace Neighbourhood

/-- The neighbourhood of a finite number of a format. Below a power of two the
numbers lie twice as dense, except where the unit is already the smallest. -/
def ofParts (f : BinaryFormat) (units : Nat) (exponent : Int) : Neighbourhood :=
  ⟨units, exponent, if units = f.leading ∧ f.leastExponent < exponent then 1 else 2⟩

/-- The size of a quarter of the unit, in steps of the grid `10 ^ k`. -/
def quarter (h : Neighbourhood) (k : Int) : Nat :=
  Nat.pow 2 (h.exponent - 2).toNat * Nat.pow 10 (-k).toNat

/-- The distance of two points of the grid `10 ^ k`, in the same steps. -/
def spacing (h : Neighbourhood) (k : Int) : Nat :=
  Nat.pow 2 (2 - h.exponent).toNat * Nat.pow 10 k.toNat

/-- Whether the grid point `c · 10 ^ k` reads back: it lies in the
neighbourhood, whose ends belong to it exactly if the count of units is even. -/
def contains (h : Neighbourhood) (k : Int) (c : Nat) : Bool :=
  let low := (4 * h.units - h.below) * h.quarter k
  let high := (4 * h.units + 2) * h.quarter k
  let point := c * h.spacing k
  if h.units % 2 = 0 then decide (low ≤ point ∧ point ≤ high)
  else decide (low < point ∧ point < high)

/-- The point of the grid `10 ^ k` to write, if one reads back. -/
def onGrid? (tie : Tie) (h : Neighbourhood) (k : Int) : Option Nat :=
  let centre := 4 * h.units * h.quarter k
  let spacing := h.spacing k
  let c := centre / spacing
  let excess := centre % spacing
  let down := h.contains k c
  let up := h.contains k (c + 1)
  if down && up then
    if 2 * excess < spacing then some c
    else if spacing < 2 * excess then some (c + 1)
    else match tie with
      | .toEven => some (c + c % 2)
      | .away => some (c + 1)
  else if down then some c
  else if up then some (c + 1)
  else none

/-- Tries the grids from `10 ^ k` on, each ten times finer than the last, and
the last of them whatever it holds. -/
def coarsest (tie : Tie) (h : Neighbourhood) : Nat → Int → Decimal
  | 0, k => ⟨4 * h.units * h.quarter k / h.spacing k, k⟩
  | n + 1, k =>
    match h.onGrid? tie k with
    | some c => ⟨c, k⟩
    | none => coarsest tie h n (k - 1)

end Neighbourhood

/-- The decimal with the fewest digits that reads back to `units · 2 ^ exponent`,
and of those the nearest. The search begins at a power of ten no smaller than
the number and ends, at the latest, at `10 ^ exponent`, of which the number is a
multiple if the exponent is negative. -/
def shortest (f : BinaryFormat) (tie : Tie) (units : Nat) (exponent : Int) : Decimal :=
  if units = 0 then ⟨0, 0⟩
  else
    let whole := units * Nat.pow 2 exponent.toNat / Nat.pow 2 (-exponent).toNat
    let top : Int := width whole
    let found := (Neighbourhood.ofParts f units exponent).coarsest tie
      (top - min exponent 0).toNat top
    trim (width found.digits) found
where
  /-- Drops final zeros into the exponent. A grid point just above the number may
  be a power of ten. -/
  trim : Nat → Decimal → Decimal
    | 0, d => d
    | n + 1, d => if d.digits % 10 = 0 then trim n ⟨d.digits / 10, d.exponent + 1⟩ else d

end Decimal

end Linework
