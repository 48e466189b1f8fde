import Linework.Json.Reader

/-!
# Texts between quotes

The inside of a quoted text is read one character at a time, with what is still
pending kept as a state: nothing, an escape, some digits of a code unit, or the
second half of a surrogate pair. A code unit is four bytes long. That is why an
escape close to the end of the input is unfinished rather than wrong: with fewer
than four bytes left there is no telling what its digits would have been.

The same reader serves for texts whose content is of no interest. They are held
to the same syntax, but their surrogates need not pair.
-/

namespace Linework.Json

/-- What is still to come of an escape. -/
inductive Pending where
  /-- No escape is open. -/
  | nothing
  /-- The character after a backslash. -/
  | escape
  /-- The remaining digits of a code unit whose first ones have this value,
  after the first half of a surrogate pair if there is one. -/
  | digits (high : Option Nat) (left : Nat) (value : Nat)
  /-- The backslash that leads to the second half of a pair. -/
  | backslash (high : Nat)
  /-- The letter that leads to the second half of a pair. -/
  | letter (high : Nat)

/-- The value of a hexadecimal digit. -/
def hexDigit? (c : Char) : Option Nat :=
  if '0' ≤ c ∧ c ≤ '9' then some (c.toNat - '0'.toNat)
  else if 'a' ≤ c ∧ c ≤ 'f' then some (c.toNat - 'a'.toNat + 10)
  else if 'A' ≤ c ∧ c ≤ 'F' then some (c.toNat - 'A'.toNat + 10)
  else none

/-- Whether fewer than `n` bytes are left. -/
def fewerBytes : Nat → List Char → Bool
  | 0, _ => false
  | _ + 1, [] => true
  | n, c :: rest => fewerBytes (n - c.utf8Size) rest

/-- Begins the four digits of a code unit. -/
def openUnit (high : Option Nat) (rest : List Char) :
    Except Fault (Pending × Option Char) :=
  if fewerBytes 4 rest then .error (.unfinished .text) else .ok (.digits high 4 0, none)

/-- Ends a code unit. One outside the surrogates is a character. The first half
of a pair waits for the second, and the second must have the first before it;
`paired` tells whether that matters. -/
def closeUnit (paired : Bool) (high : Option Nat) (unit : Nat) :
    Except Fault (Pending × Option Char) :=
  if !paired then .ok (.nothing, none)
  else match high with
    | some h =>
      if 0xDC00 ≤ unit ∧ unit ≤ 0xDFFF then
        .ok (.nothing, some (Char.ofNat (0x10000 + (h - 0xD800) * 0x400 + (unit - 0xDC00))))
      else .error (.malformed .loneSurrogate)
    | none =>
      if 0xDC00 ≤ unit ∧ unit ≤ 0xDFFF then .error (.malformed .loneSurrogate)
      else if 0xD800 ≤ unit ∧ unit ≤ 0xDBFF then .ok (.backslash unit, none)
      else .ok (.nothing, some (Char.ofNat unit))

/-- One character of a text, other than the closing quote: what is pending after
it, and the character it completes. -/
def Pending.next (paired : Bool) (c : Char) (rest : List Char) :
    Pending → Except Fault (Pending × Option Char)
  | .nothing =>
    if c = '\\' then .ok (.escape, none)
    else if c.toNat < 0x20 then .error (.malformed .controlCharacter)
    else .ok (.nothing, some c)
  | .escape =>
    match c with
    | '"' => .ok (.nothing, some '"')
    | '\\' => .ok (.nothing, some '\\')
    | '/' => .ok (.nothing, some '/')
    | 'b' => .ok (.nothing, some '\x08')
    | 'f' => .ok (.nothing, some '\x0c')
    | 'n' => .ok (.nothing, some '\n')
    | 'r' => .ok (.nothing, some '\r')
    | 't' => .ok (.nothing, some '\t')
    | 'u' => openUnit none rest
    | _ => .error (.malformed .invalidEscape)
  | .digits high left value =>
    match hexDigit? c with
    | none => .error (.malformed .invalidEscape)
    | some d =>
      if left ≤ 1 then closeUnit paired high (value * 16 + d)
      else .ok (.digits high (left - 1) (value * 16 + d), none)
  | .backslash high =>
    if c = '\\' then .ok (.letter high, none) else .error (.malformed .unfinishedSurrogate)
  | .letter high =>
    if c = 'u' then openUnit (some high) rest else .error (.malformed .unfinishedSurrogate)

/-- The rest of a text and its closing quote. -/
def inside (paired : Bool) : Pending → Reader (List Char)
  | _, [] => .error (.unfinished .text)
  | .nothing, '"' :: rest => .ok ([], rest)
  | pending, c :: rest => do
    let (pending, out) ← pending.next paired c rest
    let (cs, rest) ← inside paired pending rest
    return (out.toList ++ cs, rest)

/-- A text, after its opening quote. -/
def stringText : Reader String := fun s => do
  let (cs, rest) ← inside true .nothing s
  return (String.ofList cs, rest)

/-- Passes over a text, after its opening quote. -/
def skimText (s : List Char) : Except Fault (List Char) := do
  let (_, rest) ← inside false .nothing s
  return rest

end Linework.Json
