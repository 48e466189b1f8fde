import Linework.Decimal.Layout
import Linework.Json.Reader

/-!
# Documents to be written

What is written is a tree of its own, apart from the values that are read: its
numbers are singles and counts, whose texts are fixed by their values, and its
objects have the members they were built with. A document has two texts. The
compact one has no blanks at all; the pretty one puts every element and every
member on a line of its own, two blanks further in than its container. They
differ in nothing but their blanks, so one function writes both, given a
`Spacing`. It writes from the back, each part in front of the text that follows
it: nothing is copied, and reading a part back can be stated with any text behind
it.
-/

namespace Linework.Json

/-- A document to be written. -/
inductive Document where
  /-- A number in single precision. -/
  | single (x : Float32)
  /-- A count. -/
  | count (n : Nat)
  /-- A truth value. -/
  | bool (b : Bool)
  /-- A text. -/
  | text (s : String)
  /-- A list. -/
  | list (items : List Document)
  /-- Named members. -/
  | object (members : List (String × Document))

/-- Singles in documents: written out from a millionth up to thirteen places,
always with a fraction. What is infinite or not a number has no text in a
document and is written as the absent value. -/
def singleLayout : Layout where
  tie := .toEven
  positional e := decide (-6 ≤ e ∧ e ≤ 12)
  fraction := true
  nan := "null".toList
  infinity _ := "null".toList

/-- A character inside a quoted text. -/
def escaped (c : Char) : List Char :=
  match c with
  | '"' => ['\\', '"']
  | '\\' => ['\\', '\\']
  | '\n' => ['\\', 'n']
  | '\r' => ['\\', 'r']
  | '\t' => ['\\', 't']
  | '\x08' => ['\\', 'b']
  | '\x0c' => ['\\', 'f']
  | c =>
    if c.toNat < 0x20 then
      ['\\', 'u', '0', '0', Nat.digitChar (c.toNat / 16), Nat.digitChar (c.toNat % 16)]
    else [c]

/-- A text between quotes. -/
def string (s : String) : List Char := '"' :: s.toList.flatMap escaped ++ ['"']

/-- Where the blanks of a text stand, and that they are blanks. -/
structure Spacing where
  /-- In front of every element and every member, and of the bracket that closes a
  container which has some, by how many levels in they stand. -/
  line : Nat → List Char
  /-- After the colon of a member. -/
  gap : List Char
  isBlank_line : ∀ level, ∀ c ∈ line level, isBlank c = true
  isBlank_gap : ∀ c ∈ gap, isBlank c = true

/-- No blanks at all. -/
def Spacing.compact : Spacing where
  line _ := []
  gap := []
  isBlank_line _ := by simp
  isBlank_gap := by simp

/-- A line for everything, two blanks further in at every level. -/
def Spacing.pretty : Spacing where
  line level := '\n' :: List.replicate (2 * level) ' '
  gap := [' ']
  isBlank_line level := by simp [isBlank]
  isBlank_gap := by simp [isBlank]

namespace Document

variable (spacing : Spacing)

/-- The name of a member, in front of its value. -/
def nameBefore (key : String) (rest : List Char) : List Char :=
  string key ++ ':' :: (spacing.gap ++ rest)

mutual

/-- The text of a document that stands so many levels in, in front of what follows
it. What is no container takes no lines of its own, and neither does an empty
one. -/
def textBefore (level : Nat) : Document → List Char → List Char
  | .single x, rest => singleLayout.single x ++ rest
  | .count n, rest => Nat.toDigits 10 n ++ rest
  | .bool b, rest => (if b then "true".toList else "false".toList) ++ rest
  | .text s, rest => string s ++ rest
  | .list [], rest => '[' :: ']' :: rest
  | .list (x :: xs), rest =>
    '[' :: (spacing.line (level + 1) ++ textBefore (level + 1) x
      (itemsBefore (level + 1) xs (spacing.line level ++ ']' :: rest)))
  | .object [], rest => '{' :: '}' :: rest
  | .object ((key, x) :: more), rest =>
    '{' :: (spacing.line (level + 1) ++ nameBefore spacing key (textBefore (level + 1) x
      (membersBefore (level + 1) more (spacing.line level ++ '}' :: rest))))

/-- Further elements, each after a comma. -/
def itemsBefore (level : Nat) : List Document → List Char → List Char
  | [], rest => rest
  | x :: xs, rest =>
    ',' :: (spacing.line level ++ textBefore level x (itemsBefore level xs rest))

/-- Further members, each after a comma. -/
def membersBefore (level : Nat) : List (String × Document) → List Char → List Char
  | [], rest => rest
  | (key, x) :: more, rest =>
    ',' :: (spacing.line level ++ nameBefore spacing key
      (textBefore level x (membersBefore level more rest)))

end

/-- The text without blanks. -/
def compact (d : Document) : List Char := d.textBefore .compact 0 []

/-- The text over several lines. -/
def pretty (d : Document) : List Char := d.textBefore .pretty 0 []

end Document

end Linework.Json
