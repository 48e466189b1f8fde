import Linework.Json.Reader

/-!
# Numerals

A numeral is read in two steps. `numeral` goes through its characters and keeps
at most as many digits as a 64-bit count holds, together with the power of ten
they count; digits past that are let go, and only their number matters if they
stand before the point. `Numeral.value` then makes a number of it: a whole
number if nothing but digits was written and all of them were kept, and
otherwise a double, reached from the digits by one multiplication or division by
a power of ten. That is not always the double nearest to the numeral, and the
difference shows, so the steps are kept as they are.
-/

namespace Linework.Json

/-- What a numeral says, without its sign. -/
structure Numeral where
  /-- The digits that were kept, as one whole number. -/
  digits : Nat
  /-- The power of ten that they count. -/
  exponent : Int
  /-- Whether the numeral has no point and no exponent, and no digit was let
  go. -/
  whole : Bool

/-- The greatest 64-bit count. -/
def greatestCount : Nat := 0xffffffffffffffff

/-- The value of a decimal digit. -/
def digitValue (c : Char) : Nat := c.toNat - '0'.toNat

/-- Appends digits to a count while it stays within 64 bits, and returns the
digits from the first one on that does not fit. -/
def gather : Nat → List Char → Nat × List Char
  | n, [] => (n, [])
  | n, c :: cs =>
    if n * 10 + digitValue c ≤ greatestCount then gather (n * 10 + digitValue c) cs
    else (n, c :: cs)

/-- The exponent of a numeral, after its letter. -/
def exponentPart (atEnd : Fault) (digits : Nat) (start : Int) : Reader Numeral := fun s =>
  let (down, s) := match s with
    | '+' :: rest => (false, rest)
    | '-' :: rest => (true, rest)
    | rest => (false, rest)
  match s with
  | [] => .error atEnd
  | c :: _ =>
    if c.isDigit then
      let e := (s.takeWhile Char.isDigit).foldl (fun n d => n * 10 + digitValue d) 0
      .ok (⟨digits, if down then start - e else start + e, false⟩, s.dropWhile Char.isDigit)
    else .error (.malformed .invalidNumber)

/-- The fraction of a numeral, after its point. -/
def fractionPart (atEnd : Fault) (digits : Nat) (start : Int) : Reader Numeral := fun s =>
  let places := s.takeWhile Char.isDigit
  let rest := s.dropWhile Char.isDigit
  if places.isEmpty then
    .error (if rest.isEmpty then atEnd else .malformed .invalidNumber)
  else
    let (digits, lost) := gather digits places
    let exponent := start - (places.length - lost.length : Nat)
    match rest with
    | 'e' :: rest => exponentPart atEnd digits exponent rest
    | 'E' :: rest => exponentPart atEnd digits exponent rest
    | _ => .ok (⟨digits, exponent, false⟩, rest)

/-- A numeral, after its sign; `atEnd` is the fault if the text ends inside
it. -/
def numeral (atEnd : Fault) : Reader Numeral := fun s =>
  match s with
  | [] => .error atEnd
  | c :: _ =>
    if c.isDigit then
      let leading := s.takeWhile Char.isDigit
      if c = '0' ∧ 1 < leading.length then .error (.malformed .invalidNumber)
      else
        let (digits, lost) := gather 0 leading
        match s.dropWhile Char.isDigit with
        | '.' :: rest => fractionPart atEnd digits lost.length rest
        | 'e' :: rest => exponentPart atEnd digits lost.length rest
        | 'E' :: rest => exponentPart atEnd digits lost.length rest
        | rest => .ok (⟨digits, lost.length, lost.isEmpty⟩, rest)
    else .error (.malformed .invalidNumber)

/-- The greatest power of ten in double precision. -/
def greatestPower : Nat := 308

/-- A power of ten in double precision. -/
def powerOfTen (n : Nat) : Float := Float.ofScientific 1 false n

/-- Divides by the greatest power of ten, several times over or until nothing is
left. -/
def shrink : Nat → Float → Float
  | 0, x => x
  | n + 1, x => if x == 0 then x else shrink n (x / powerOfTen greatestPower)

/-- The double a numeral stands for, without its sign. -/
def Numeral.magnitude (n : Numeral) : Except Fault Float :=
  let x := n.digits.toUInt64.toFloat
  match n.exponent with
  | .ofNat e =>
    if greatestPower < e then
      if x == 0 then .ok x else .error (.malformed .numberOutOfRange)
    else
      let y := x * powerOfTen e
      if y.isInf then .error (.malformed .numberOutOfRange) else .ok y
  | .negSucc e =>
    let steps := e / greatestPower
    .ok (shrink steps x / powerOfTen (e + 1 - greatestPower * steps))

/-- The number of a numeral with its sign. Negative zero is not a whole number,
and neither is a negative number below the 64-bit range. -/
def Numeral.value (negative : Bool) (n : Numeral) : Except Fault Number :=
  if n.whole && !negative then .ok (.whole n.digits)
  else if n.whole && 0 < n.digits && n.digits ≤ 0x8000000000000000 then .ok (.whole (-n.digits))
  else do
    let x ← n.magnitude
    return .real (if negative then -x else x)

/-- A number, after its sign. -/
def numberText (negative : Bool) : Reader Number := fun s => do
  let (n, rest) ← numeral (.unfinished .value) s
  return (← n.value negative, rest)

/-- Passes over a number, after its sign. Its size does not matter, and one that
breaks off is wrong even at the end of the text. -/
def skimNumber (s : List Char) : Except Fault (List Char) := do
  let (_, rest) ← numeral (.malformed .invalidNumber) s
  return rest

end Linework.Json
