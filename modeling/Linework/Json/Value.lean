import Linework.Json.StringText
import Linework.Json.Numeral

/-!
# Whole values and whole texts

`value` reads any value. It is given how many containers may still be opened and
gives one less to what stands inside a container, so it recurses on that number
and on nothing else; the elements of one list are a loop of their own.

`document` is how every text is read from beginning to end: with as many
containers as are admitted, and with nothing but blanks after the value.
-/

namespace Linework.Json

/-- How many containers may stand inside one another. -/
def deepest : Nat := 127

/-- A value that is no container. -/
def scalar : Reader Json
  | 'n' :: rest => do return (.null, ← word ['u', 'l', 'l'] rest)
  | 't' :: rest => do return (.bool true, ← word ['r', 'u', 'e'] rest)
  | 'f' :: rest => do return (.bool false, ← word ['a', 'l', 's', 'e'] rest)
  | '"' :: rest => do
    let (s, rest) ← stringText rest
    return (.text s, rest)
  | '-' :: rest => do
    let (n, rest) ← numberText true rest
    return (.number n, rest)
  | c :: rest =>
    if c.isDigit then do
      let (n, rest) ← numberText false (c :: rest)
      return (.number n, rest)
    else .error (.malformed .expectedValue)
  | [] => .error (.unfinished .value)

/-- Any value, with so many containers still to open. -/
def value (depth : Nat) : Reader Json := fun s =>
  match skipBlanks s with
  | '[' :: rest =>
    match depth with
    | 0 => .error (.malformed .tooDeep)
    | d + 1 => do
      let (items, rest) ← listOf (value d) rest
      return (.list items, rest)
  | '{' :: rest =>
    match depth with
    | 0 => .error (.malformed .tooDeep)
    | d + 1 => do
      let member := fun key (before : List (String × Json)) rest => do
        let (v, rest) ← value d (← colon rest)
        return ((key, v) :: before, rest)
      let (backwards, rest) ← objectOf stringText member [] rest
      return (.object backwards.reverse, rest)
  | other => scalar other

/-- The fault of a value that is not what belongs at its place. A scalar is read
to its end first, since it may turn out to be no value at all. -/
def mismatchAt (expected : Expected) : List Char → Fault
  | '[' :: _ => .mismatch (.wrongType .list expected)
  | '{' :: _ => .mismatch (.wrongType .object expected)
  | s =>
    match scalar s with
    | .ok (v, _) => .mismatch (.wrongType v.found expected)
    | .error fault => fault

/-- Reads a whole text: one value, and nothing but blanks after it. -/
def document {α : Type} (read : Nat → Reader α) (s : List Char) : Except Fault α := do
  let (x, rest) ← read deepest s
  if (skipBlanks rest).isEmpty then return x
  else .error (.malformed .trailingCharacters)

end Linework.Json
