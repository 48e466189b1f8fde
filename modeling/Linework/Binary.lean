/-!
# Binary floating point, taken apart

A floating-point number is a sign and a whole number of units, where a unit is a
power of two. This module reads the bits of a number as such a pair and writes a
pair back as bits, rounding to the nearest number the format has. Everything is
whole-number arithmetic, so that what is said about decimal texts elsewhere –
which digits are needed, which number a text stands for – can be said exactly.

`narrow` is the one conversion built from it: a double to the nearest single.
-/

namespace Linework

/-- A binary floating-point format. -/
structure BinaryFormat where
  /-- How many bits of the fraction are stored. -/
  fractionBits : Nat
  /-- How many bits the exponent has. -/
  exponentBits : Nat

/-- A floating-point number, taken apart. -/
inductive BinaryParts where
  /-- Not a number. -/
  | nan
  /-- An infinity. -/
  | infinite (negative : Bool)
  /-- The number `units · 2 ^ exponent`, with its sign. Zero keeps its sign too. -/
  | finite (negative : Bool) (units : Nat) (exponent : Int)
  deriving DecidableEq, Repr

/-- Whole-number quotient, to the nearest; a half goes to the even neighbour. -/
def divRoundEven (n d : Nat) : Nat :=
  let q := n / d
  let r := n % d
  if 2 * r < d then q else if d < 2 * r then q + 1 else q + q % 2

namespace BinaryFormat

/-- Single precision. -/
def single : BinaryFormat := ⟨23, 8⟩

/-- Double precision. -/
def double : BinaryFormat := ⟨52, 11⟩

variable (f : BinaryFormat)

/-- One more than the greatest fraction: the leading unit of a normal number. -/
def leading : Nat := Nat.pow 2 f.fractionBits

/-- The stored exponent of infinities and of what is not a number. -/
def special : Nat := Nat.pow 2 f.exponentBits - 1

/-- The exponent of the smallest unit, which the numbers nearest zero are
multiples of. -/
def leastExponent : Int :=
  2 - (Nat.pow 2 (f.exponentBits - 1) : Nat) - (f.fractionBits : Nat)

/-- Reads the bits of a number. -/
def decode (bits : Nat) : BinaryParts :=
  let fraction := bits % f.leading
  let stored := bits / f.leading % (f.special + 1)
  let negative := bits / f.leading / (f.special + 1) == 1
  if stored = f.special then
    if fraction = 0 then .infinite negative else .nan
  else if stored = 0 then
    .finite negative fraction f.leastExponent
  else
    .finite negative (f.leading + fraction) (f.leastExponent + (stored - 1 : Nat))

/-- The bits, without the sign, of the number of the format nearest to
`units · 2 ^ exponent`; a half goes to the even neighbour, and what is too large
becomes infinite.

The unit is chosen so that the leading bit just fits, but never below the
smallest one. Rounding up may carry into the next power of two; adding the
rounded units to the scaled exponent carries into the exponent by itself. -/
def encodeMagnitude (units : Nat) (exponent : Int) : Nat :=
  let unit := max (exponent + units.log2 - f.fractionBits) f.leastExponent
  let rounded :=
    if unit ≤ exponent then units * Nat.pow 2 (exponent - unit).toNat
    else divRoundEven units (Nat.pow 2 (unit - exponent).toNat)
  let bits := (unit - f.leastExponent).toNat * f.leading + rounded
  min bits (f.special * f.leading)

end BinaryFormat

/-- A single, taken apart. -/
def BinaryParts.ofSingle (x : Float32) : BinaryParts :=
  BinaryFormat.single.decode x.toBits.toNat

/-- A double, taken apart. -/
def BinaryParts.ofDouble (x : Float) : BinaryParts :=
  BinaryFormat.double.decode x.toBits.toNat

/-- The single nearest to a double, a half going to the even neighbour. A double
beyond the greatest single becomes infinite. -/
def narrow (x : Float) : Float32 :=
  match BinaryParts.ofDouble x with
  | .nan => Float32.ofBits 0x7fc00000
  | .infinite negative => Float32.ofBits (if negative then 0xff800000 else 0x7f800000)
  | .finite negative units exponent =>
    let bits := BinaryFormat.single.encodeMagnitude units exponent
    Float32.ofBits ((if negative then 0x80000000 else 0) + UInt32.ofNat bits)

end Linework
