import Linework.Json.Skim

/-!
# Records

A record is read straight from the text, by overriding a template. An object
names the fields it gives, in any order, and whatever else it holds is passed
over; a list gives the fields from the first one on. Either way every field that
is given replaces the template's, so a field that may be left out has its default
in the template, and a field that may not has a placeholder there that never
comes through.

The readers of single values are here too: numbers in single precision, whole
numbers of a given range and truth values.
-/

namespace Linework.Json

/-- Reads a value, given how many containers may still be opened. -/
abbrev Decoder (α : Type) : Type := Nat → Reader α

/-- A whole number between zero and a greatest one. -/
def Number.toCount (greatest : Nat) (expected : Expected) : Number → Except Mismatch Nat
  | .whole n =>
    if 0 ≤ n ∧ n ≤ greatest then .ok n.toNat else .error (.outOfRange n expected)
  | .real x => .error (.wrongType (.real x) expected)

/-- A number of 32 bits. -/
def Number.toWord (n : Number) : Except Mismatch UInt32 := do
  return UInt32.ofNat (← n.toCount 0xffffffff .word)

/-- A number of 8 bits. -/
def Number.toByte (n : Number) : Except Mismatch UInt8 := do
  return UInt8.ofNat (← n.toCount 0xff .byte)

/-- A number that is acceptable at its place. -/
def numeric {α : Type} (expected : Expected) (accept : Number → Except Mismatch α) :
    Decoder α := fun _ s =>
  match skipBlanks s with
  | [] => .error (.unfinished .value)
  | '-' :: rest => do
    let (n, rest) ← numberText true rest
    return (← (accept n).mapError .mismatch, rest)
  | c :: rest =>
    if c.isDigit then do
      let (n, rest) ← numberText false (c :: rest)
      return (← (accept n).mapError .mismatch, rest)
    else .error (mismatchAt expected (c :: rest))

/-- A number in single precision. -/
def single : Decoder Float32 := numeric .single fun n => .ok n.toSingle

/-- A whole number of 32 bits. -/
def word32 : Decoder UInt32 := numeric .word Number.toWord

/-- A whole number of 8 bits. -/
def byte : Decoder UInt8 := numeric .byte Number.toByte

/-- A truth value. -/
def boolean : Decoder Bool := fun _ s =>
  match skipBlanks s with
  | [] => .error (.unfinished .value)
  | 't' :: rest => do return (true, ← word ['r', 'u', 'e'] rest)
  | 'f' :: rest => do return (false, ← word ['a', 'l', 's', 'e'] rest)
  | other => .error (mismatchAt .boolean other)

/-- What a container's opening bracket opens, if one more may be opened. -/
def opening {α : Type} (depth : Nat) (inner : Decoder α) : Reader α := fun s =>
  match depth with
  | 0 => .error (.malformed .tooDeep)
  | d + 1 => inner d s

/-- A list of values of one type. -/
def array {α : Type} (item : Decoder α) : Decoder (List α) := fun depth s =>
  match skipBlanks s with
  | [] => .error (.unfinished .value)
  | '[' :: rest => opening depth (fun d => listOf (item d)) rest
  | other => .error (mismatchAt .list other)

/-- A field of a record. -/
structure RecordField (α : Type) where
  /-- The name it has in an object. -/
  name : String
  /-- Whether it has to be given. -/
  required : Bool
  /-- Reads the field, as a change to the record. -/
  decode : Decoder (α → α)

/-- The field that a value of type `β` is stored in by `store`. -/
def RecordField.of {α β : Type} (name : String) (required : Bool) (decode : Decoder β)
    (store : β → α → α) : RecordField α where
  name
  required
  decode depth s := do
    let (b, rest) ← decode depth s
    return (store b, rest)

/-- Fields given by their order, after the opening bracket and `i` of them. -/
def positional {α : Type} (expected : Expected) (depth : Nat) :
    List (RecordField α) → Nat → α → Reader α
  | [], _, x, s => do return (x, ← closeList s)
  | field :: fields, i, x, s => do
    match ← nextElement (i == 0) s with
    | .entry rest =>
      let (change, rest) ← field.decode depth rest
      positional expected depth fields (i + 1) (change x) rest
    | .closes rest =>
      if field.required then .error (.mismatch (.wrongLength i expected))
      else positional expected depth fields (i + 1) x rest

/-- A record as it is read. -/
structure Record (α : Type) where
  /-- What messages call it. -/
  title : String
  /-- The record that given fields override. -/
  template : α
  /-- Its fields, in order. -/
  fields : List (RecordField α)

namespace Record

variable {α : Type} (r : Record α)

/-- One member of an object that gives a record, with the fields given so far.
That a field is given twice is noticed at its name. -/
def member (depth : Nat) (key : String) (state : α × List String) : Reader (α × List String) :=
  fun s =>
    match r.fields.find? (·.name == key) with
    | none => do return (state, ← skim (← colon s))
    | some field =>
      if state.2.contains key then .error (.mismatch (.duplicateField key))
      else do
        let (change, rest) ← field.decode depth (← colon s)
        return ((change state.1, key :: state.2), rest)

/-- Fields given by name, after the opening brace. Which are missing is told
when all members have been read. -/
def keyed : Decoder α := fun depth s => do
  let ((x, given), rest) ← objectOf stringText (r.member depth) (r.template, []) s
  match r.fields.find? fun field => field.required && !given.contains field.name with
  | some field => .error (.mismatch (.missingField field.name))
  | none => return (x, rest)

/-- A record, from an object or from a list of its fields. -/
def decode : Decoder α := fun depth s =>
  match skipBlanks s with
  | [] => .error (.unfinished .value)
  | '[' :: rest =>
    opening depth (fun d =>
      positional (.fields r.title r.fields.length) d r.fields 0 r.template) rest
  | '{' :: rest => opening depth r.keyed rest
  | other => .error (mismatchAt (.record r.title) other)

end Record

end Linework.Json
