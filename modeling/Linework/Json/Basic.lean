import Linework.Binary

/-!
# Values of a document

The value a JSON text stands for, as it is written: the members of an object
keep their order and their repetitions, because one reader here takes the last
of several members of one name and another refuses repetition. A number keeps
apart what was written without a point or an exponent from what was written with
one, since a whole-number field takes only the former.
-/

namespace Linework

/-- A number of a document. -/
inductive Json.Number where
  /-- Written as a whole number, and small enough to be kept as one. -/
  | whole (n : Int)
  /-- Any other number, in double precision. -/
  | real (x : Float)

/-- A value of a document. -/
inductive Json where
  /-- The absent value. -/
  | null
  /-- A truth value. -/
  | bool (b : Bool)
  /-- A number. -/
  | number (n : Json.Number)
  /-- A text. -/
  | text (s : String)
  /-- A list of values. -/
  | list (items : List Json)
  /-- Named members, in the order they are written. -/
  | object (members : List (String × Json))

namespace Json

/-- The single nearest to a number. A whole number is rounded once, straight to
single precision; any other is rounded from the double it was read as. -/
def Number.toSingle : Number → Float32
  | .whole n =>
    let magnitude := n.natAbs.toUInt64.toFloat32
    if n < 0 then -magnitude else magnitude
  | .real x => narrow x

/-- The value of the last member of a name. -/
def last? (name : String) : List (String × Json) → Option Json
  | [] => none
  | (key, v) :: rest =>
    match last? name rest with
    | some w => some w
    | none => if key = name then some v else none

/-- **The last one counts.** Of two lists of members, the second is asked first. -/
theorem last?_append (name : String) (xs ys : List (String × Json)) :
    last? name (xs ++ ys) = (last? name ys).or (last? name xs) := by
  induction xs with
  | nil => cases h : last? name ys <;> simp [last?, h]
  | cons x xs ih =>
    obtain ⟨key, v⟩ := x
    simp only [List.cons_append, last?, ih]
    cases last? name ys <;> simp

/-- The values of all members of a name, in order. -/
def all (name : String) : List (String × Json) → List Json
  | [] => []
  | (key, v) :: rest => if key = name then v :: all name rest else all name rest

end Json

end Linework
