import Linework.Decimal.Shortest

/-!
# How a number is laid out

The digits of a number are one question and their layout another: where the
point stands, when an exponent is written instead, and what is written for a
number that has no digits at all. A `Layout` answers the second for one place
where numbers appear, and `Layout.write` does the rest for all of them.
-/

namespace Linework

/-- The decisions of one place that writes numbers. -/
structure Layout where
  /-- Which of two equally near decimals is written. -/
  tie : Tie
  /-- Whether a number whose first digit counts `10 ^ e` is written out in full;
  if not, an exponent is written. -/
  positional : Int → Bool
  /-- Whether a whole number still shows a fraction, as `.0`. -/
  fraction : Bool
  /-- The text of what is not a number. -/
  nan : List Char
  /-- The text of the positive and of the negative infinity. -/
  infinity : Bool → List Char

namespace Layout

/-- The digits of a whole number. -/
def digits (n : Nat) : List Char := Nat.toDigits 10 n

/-- A decimal written out in full. -/
def written (l : Layout) (d : Decimal) : List Char :=
  let ds := digits d.digits
  if 0 ≤ d.exponent then
    ds ++ List.replicate d.exponent.toNat '0' ++ (if l.fraction then ['.', '0'] else [])
  else
    let places := (-d.exponent).toNat
    let padded := List.replicate (places + 1 - ds.length) '0' ++ ds
    padded.take (padded.length - places) ++ '.' :: padded.drop (padded.length - places)

/-- A decimal with its first digit before the point and an exponent, whose sign
is always written. -/
def scientific (d : Decimal) : List Char :=
  let mantissa := match digits d.digits with
    | first :: second :: more => first :: '.' :: second :: more
    | single => single
  let e := d.leadingExponent
  mantissa ++ 'e' :: (if e < 0 then '-' else '+') :: digits e.natAbs

/-- A number taken apart, written out. -/
def write (l : Layout) (f : BinaryFormat) : BinaryParts → List Char
  | .nan => l.nan
  | .infinite negative => l.infinity negative
  | .finite negative units exponent =>
    let d := Decimal.shortest f l.tie units exponent
    let magnitude := if l.positional d.leadingExponent then l.written d else scientific d
    if negative then '-' :: magnitude else magnitude

/-- A single, written out. -/
def single (l : Layout) (x : Float32) : List Char := l.write .single (.ofSingle x)

/-- A double, written out. -/
def double (l : Layout) (x : Float) : List Char := l.write .double (.ofDouble x)

end Layout

end Linework
