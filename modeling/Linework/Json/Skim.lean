import Linework.Json.Value

/-!
# Passing over a value

A value nobody asked for is passed over. Its syntax has to be right, but it may
be nested as deep as it likes and its numbers may be of any size. Since the depth
is not bounded the open containers are kept on a stack rather than in the
recursion. The words for a stray comma differ from those of a value that is read,
because after a comma a value or a name is simply due.
-/

namespace Linework.Json

/-- A container that is still open. -/
inductive Frame where
  /-- A list. -/
  | list
  /-- An object. -/
  | object
  deriving DecidableEq, Repr

namespace Frame

/-- The character that closes a container. -/
def closer : Frame → Char
  | .list => ']'
  | .object => '}'

/-- The fault of a text that ends inside a container. -/
def unfinished : Frame → Fault
  | .list => .unfinished .list
  | .object => .unfinished .object

/-- The fault of an entry followed by neither a comma nor the end. -/
def expectedEnd : Frame → Fault
  | .list => .malformed .expectedListEnd
  | .object => .malformed .expectedObjectEnd

/-- Passes over what stands before the value of an entry: in an object its name
and a colon. -/
def leadIn : Frame → List Char → Except Fault (List Char)
  | .list, s => .ok s
  | .object, s =>
    match skipBlanks s with
    | [] => .error (.unfinished .object)
    | '"' :: rest => do colon (← skimText rest)
    | _ => .error (.malformed .keyNotText)

end Frame

/-- Passes over a value that is no container. -/
def skimScalar : List Char → Except Fault (List Char)
  | 'n' :: rest => word ['u', 'l', 'l'] rest
  | 't' :: rest => word ['r', 'u', 'e'] rest
  | 'f' :: rest => word ['a', 'l', 's', 'e'] rest
  | '"' :: rest => skimText rest
  | '-' :: rest => skimNumber rest
  | c :: rest =>
    if c.isDigit then skimNumber (c :: rest) else .error (.malformed .expectedValue)
  | [] => .error (.unfinished .value)

/-- How far a value has been passed over. -/
inductive Passed where
  /-- To its end. -/
  | whole (rest : List Char)
  /-- To a value due inside these containers, innermost first. -/
  | within (frames : List Frame) (rest : List Char)

/-- Goes on after a value that stands inside some containers: out of those that
end here, and over the comma in the first that does not. -/
def leave : List Frame → List Char → Except Fault Passed
  | [], s => .ok (.whole s)
  | frame :: frames, s =>
    match skipBlanks s with
    | [] => .error frame.unfinished
    | c :: rest =>
      if c = frame.closer then leave frames rest
      else if c = ',' then do return .within (frame :: frames) (← frame.leadIn rest)
      else .error frame.expectedEnd

/-- Goes on after the opening bracket of a container. -/
def enter (frame : Frame) (frames : List Frame) (s : List Char) : Except Fault Passed :=
  match skipBlanks s with
  | [] => .error frame.unfinished
  | c :: rest =>
    if c = frame.closer then leave frames rest
    else do return .within (frame :: frames) (← frame.leadIn (c :: rest))

/-- Goes on where a value is due inside some containers. -/
def advance (frames : List Frame) (s : List Char) : Except Fault Passed :=
  match skipBlanks s with
  | '[' :: rest => enter .list frames rest
  | '{' :: rest => enter .object frames rest
  | other => do leave frames (← skimScalar other)

/-- Passes over a value due inside some containers and over the rest of these.
Every round takes a character at least, so the text itself, used up one character
a round, bounds the rounds. -/
def skimFrom : List Char → List Frame → List Char → Except Fault (List Char)
  | [], _, _ => .error (.unfinished .value)
  | _ :: rounds, frames, s => do
    match ← advance frames s with
    | .whole rest => return rest
    | .within frames rest => skimFrom rounds frames rest

/-- Passes over a value. -/
def skim (s : List Char) : Except Fault (List Char) := skimFrom s [] s

end Linework.Json
