import Linework.Json.Fault

/-!
# Reading from the front

A reader takes what it needs from the front of a text and returns it with the
rest. This module has the type, blanks and words, and the punctuation of lists
and objects, which is where the rules on commas are: what may stand before the
first element, between two, and before the closing bracket.
-/

namespace Linework.Json

/-- Takes a value from the front of a text, or says why it cannot. -/
abbrev Reader (α : Type) : Type := List Char → Except Fault (α × List Char)

/-- Blanks are spaces, tabs and the two line ends. -/
def isBlank (c : Char) : Bool := c == ' ' || c == '\t' || c == '\n' || c == '\r'

/-- A text without its leading blanks. -/
def skipBlanks (s : List Char) : List Char := s.dropWhile isBlank

/-- Passes over the remaining letters of a word. -/
def word : List Char → List Char → Except Fault (List Char)
  | [], rest => .ok rest
  | _ :: _, [] => .error (.unfinished .value)
  | e :: es, c :: rest => if c = e then word es rest else .error (.malformed .expectedWord)

/-- How a list or an object goes on. -/
inductive Next where
  /-- It ends; the text begins with the closing bracket. -/
  | closes (rest : List Char)
  /-- Another entry follows; the text begins where the entry does. -/
  | entry (rest : List Char)

/-- How a list goes on, at its beginning or after an element. -/
def nextElement (first : Bool) (s : List Char) : Except Fault Next :=
  match skipBlanks s with
  | [] => .error (.unfinished .list)
  | ']' :: rest => .ok (.closes (']' :: rest))
  | c :: rest =>
    if first then .ok (.entry (c :: rest))
    else if c = ',' then
      match skipBlanks rest with
      | [] => .error (.unfinished .value)
      | ']' :: _ => .error (.malformed .trailingComma)
      | more => .ok (.entry more)
    else .error (.malformed .expectedListEnd)

/-- How an object goes on, at its beginning or after a member. An entry begins
right after the quote that opens its name. -/
def nextMember (first : Bool) (s : List Char) : Except Fault Next :=
  match skipBlanks s with
  | [] => .error (.unfinished .object)
  | '}' :: rest => .ok (.closes ('}' :: rest))
  | c :: rest =>
    if first then name (c :: rest)
    else if c = ',' then
      match skipBlanks rest with
      | '}' :: _ => .error (.malformed .trailingComma)
      | more => name more
    else .error (.malformed .expectedObjectEnd)
where
  /-- The quote that opens a member's name. -/
  name : List Char → Except Fault Next
    | [] => .error (.unfinished .value)
    | '"' :: rest => .ok (.entry rest)
    | _ => .error (.malformed .keyNotText)

/-- Passes over the end of a list all of whose elements have been taken. -/
def closeList (s : List Char) : Except Fault (List Char) :=
  match skipBlanks s with
  | [] => .error (.unfinished .list)
  | ']' :: rest => .ok rest
  | ',' :: rest =>
    match skipBlanks rest with
    | ']' :: _ => .error (.malformed .trailingComma)
    | _ => .error (.malformed .trailingCharacters)
  | _ => .error (.malformed .trailingCharacters)

/-- Passes over the colon after a member's name. -/
def colon (s : List Char) : Except Fault (List Char) :=
  match skipBlanks s with
  | [] => .error (.unfinished .object)
  | ':' :: rest => .ok rest
  | _ => .error (.malformed .expectedColon)

/-- The elements of a list and its closing bracket. Every round takes a character
at least, so there are no more rounds than characters: the first argument is the
text itself, used up one character a round. -/
def elements {α : Type} (item : Reader α) : List Char → Bool → Reader (List α)
  | [], _, _ => .error (.unfinished .list)
  | _ :: rounds, first, s => do
    match ← nextElement first s with
    | .closes rest => return ([], ← closeList rest)
    | .entry rest =>
      let (x, rest) ← item rest
      let (xs, rest) ← elements item rounds false rest
      return (x :: xs, rest)

/-- A list, after its opening bracket. -/
def listOf {α : Type} (item : Reader α) : Reader (List α) := fun s => elements item s true s

/-- The members of an object and its closing brace, with as many rounds at most
as `elements` has. What a member means is up to `member`, which gets its name and
goes on right after it, with what the members before have made of the state. -/
def members {σ : Type} (name : Reader String) (member : String → σ → Reader σ) :
    List Char → Bool → σ → Reader σ
  | [], _, _, _ => .error (.unfinished .object)
  | _ :: rounds, first, state, s => do
    match ← nextMember first s with
    | .closes rest => return (state, rest.tail)
    | .entry rest =>
      let (key, rest) ← name rest
      let (state, rest) ← member key state rest
      members name member rounds false state rest

/-- An object after its opening brace, from a state before its first member. -/
def objectOf {σ : Type} (name : Reader String) (member : String → σ → Reader σ) (state : σ) :
    Reader σ := fun s => members name member s true state s

end Linework.Json
