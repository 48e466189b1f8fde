import Linework.Decimal.Layout
import Linework.Text.Quoted
import Linework.Json.Basic

/-!
# Why a text cannot be read

A text is refused for one of three kinds of reason. It may be *malformed*: at
some place no document could continue as it does. It may be *unfinished*: it
ends inside something. Or it is a document, but a *mismatch*: what it holds at
some place is not what belongs there. Each cause is a constructor, and the words
for all of them are in this module.

A fault says what is wrong and not where. Messages about texts customarily end with
the line and the column (` at line 1 column 8`); this ending is left out of the words
here, as readers do not count lines.
-/

namespace Linework.Json

/-- Ways in which a text is no document. -/
inductive Malformed where
  /-- No value starts with this character. -/
  | expectedValue
  /-- A word other than `null`, `true` and `false`. -/
  | expectedWord
  /-- No colon after a member's name. -/
  | expectedColon
  /-- Neither a comma nor a closing bracket after an element. -/
  | expectedListEnd
  /-- Neither a comma nor a closing brace after a member. -/
  | expectedObjectEnd
  /-- A comma with nothing after it. -/
  | trailingComma
  /-- Something after the end. -/
  | trailingCharacters
  /-- A member's name that is not a text. -/
  | keyNotText
  /-- A number that breaks off or has a superfluous zero. -/
  | invalidNumber
  /-- A number beyond double precision. -/
  | numberOutOfRange
  /-- An unknown escape in a text. -/
  | invalidEscape
  /-- Half of a surrogate pair where the other half should be, or alone. -/
  | loneSurrogate
  /-- The first half of a surrogate pair with no escape after it. -/
  | unfinishedSurrogate
  /-- A control character in a text. -/
  | controlCharacter
  /-- More containers inside one another than are read. -/
  | tooDeep
  deriving DecidableEq, Repr

/-- What a text that ends too early ends in. -/
inductive Unfinished where
  /-- Where a value should be, or inside a number or a word. -/
  | value
  /-- Inside a list. -/
  | list
  /-- Inside an object. -/
  | object
  /-- Inside a text. -/
  | text
  deriving DecidableEq, Repr

/-- What stands at a place, as far as a message tells. -/
inductive Found where
  /-- The absent value. -/
  | null
  /-- A truth value. -/
  | bool (b : Bool)
  /-- A whole number. -/
  | whole (n : Int)
  /-- Any other number. -/
  | real (x : Float)
  /-- A text. -/
  | text (s : String)
  /-- Some list. -/
  | list
  /-- Some object. -/
  | object

/-- What belongs at a place. -/
inductive Expected where
  /-- A number, in single precision. -/
  | single
  /-- A whole number of 32 bits. -/
  | word
  /-- A whole number of 8 bits. -/
  | byte
  /-- A truth value. -/
  | boolean
  /-- A list. -/
  | list
  /-- A list of two numbers. -/
  | pair
  /-- A list of so many elements. -/
  | elements (count : Nat)
  /-- A record. -/
  | record (title : String)
  /-- A record of so many fields, given as a list. -/
  | fields (title : String) (count : Nat)
  /-- The absent value, after a variant's name. -/
  | unit
  /-- The name of a variant. -/
  | variant
  deriving DecidableEq, Repr

/-- Ways in which a document does not hold what it should. -/
inductive Mismatch where
  /-- A value of another type. -/
  | wrongType (found : Found) (expected : Expected)
  /-- A whole number outside the range of its field. -/
  | outOfRange (n : Int) (expected : Expected)
  /-- A list of another length. -/
  | wrongLength (length : Nat) (expected : Expected)
  /-- A field given twice. -/
  | duplicateField (name : String)
  /-- A field not given. -/
  | missingField (name : String)
  /-- A name that is neither of the two variants'. -/
  | unknownVariant (name first second : String)
  /-- A value that none of the forms of a type fits. -/
  | noVariant (title : String)

/-- Why a text cannot be read. -/
inductive Fault where
  /-- It is no document. -/
  | malformed (cause : Malformed)
  /-- It ends too early. -/
  | unfinished (part : Unfinished)
  /-- It holds something else. -/
  | mismatch (cause : Mismatch)

/-- What a message calls a value. -/
def found : Json → Found
  | .null => .null
  | .bool b => .bool b
  | .number (.whole n) => .whole n
  | .number (.real x) => .real x
  | .text s => .text s
  | .list _ => .list
  | .object _ => .object

/-- Doubles in messages: written out from a hundred-thousandth up to sixteen
places, always with a fraction. -/
def doubleLayout : Layout where
  tie := .toEven
  positional e := decide (-5 ≤ e ∧ e ≤ 15)
  fraction := true
  nan := "null".toList
  infinity _ := "null".toList

/-- The words for a malformed text. -/
def Malformed.message : Malformed → String
  | .expectedValue => "expected value"
  | .expectedWord => "expected ident"
  | .expectedColon => "expected `:`"
  | .expectedListEnd => "expected `,` or `]`"
  | .expectedObjectEnd => "expected `,` or `\x7d`"
  | .trailingComma => "trailing comma"
  | .trailingCharacters => "trailing characters"
  | .keyNotText => "key must be a string"
  | .invalidNumber => "invalid number"
  | .numberOutOfRange => "number out of range"
  | .invalidEscape => "invalid escape"
  | .loneSurrogate => "lone leading surrogate in hex escape"
  | .unfinishedSurrogate => "unexpected end of hex escape"
  | .controlCharacter => "control character (\\u0000-\\u001F) found while parsing a string"
  | .tooDeep => "recursion limit exceeded"

/-- The words for an unfinished text. -/
def Unfinished.message : Unfinished → String
  | .value => "EOF while parsing a value"
  | .list => "EOF while parsing a list"
  | .object => "EOF while parsing an object"
  | .text => "EOF while parsing a string"

/-- The words for what was found. -/
def Found.message : Found → String
  | .null => "null"
  | .bool b => "boolean `" ++ (if b then "true" else "false") ++ "`"
  | .whole n => "integer `" ++ toString n ++ "`"
  | .real x => "floating point `" ++ String.ofList (doubleLayout.double x) ++ "`"
  | .text s => "string " ++ quoted s
  | .list => "sequence"
  | .object => "map"

/-- The words for what was expected. -/
def Expected.message : Expected → String
  | .single => "f32"
  | .word => "u32"
  | .byte => "u8"
  | .boolean => "a boolean"
  | .list => "a sequence"
  | .pair => "a sequence of 2 f32 values"
  | .elements count => toString count ++ " elements in sequence"
  | .record title => "struct " ++ title
  | .fields title count =>
    "struct " ++ title ++ " with " ++ toString count
      ++ (if count = 1 then " element" else " elements")
  | .unit => "unit"
  | .variant => "variant identifier"

/-- The words for a mismatch. -/
def Mismatch.message : Mismatch → String
  | .wrongType found expected =>
    "invalid type: " ++ found.message ++ ", expected " ++ expected.message
  | .outOfRange n expected =>
    "invalid value: integer `" ++ toString n ++ "`, expected " ++ expected.message
  | .wrongLength length expected =>
    "invalid length " ++ toString length ++ ", expected " ++ expected.message
  | .duplicateField name => "duplicate field `" ++ name ++ "`"
  | .missingField name => "missing field `" ++ name ++ "`"
  | .unknownVariant name first second =>
    "unknown variant `" ++ name ++ "`, expected `" ++ first ++ "` or `" ++ second ++ "`"
  | .noVariant title => "data did not match any variant of untagged enum " ++ title

/-- The words for a fault, without the line and the column of where it was found. -/
def Fault.message : Fault → String
  | .malformed cause => cause.message
  | .unfinished part => part.message
  | .mismatch cause => cause.message

end Linework.Json
