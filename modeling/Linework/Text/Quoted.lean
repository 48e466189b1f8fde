import Linework.Text.Printable

/-!
# Texts quoted in messages

A text that a message mentions stands between double quotes and on one line.
What would break out of the quotes or off the line is escaped: the quote and the
backslash by a backslash, the four characters that have a letter by that letter,
and every other character without a mark of its own by its code point.
-/

namespace Linework

/-- The code point of a character in braces, in hexadecimal. -/
def codePointEscape (c : Char) : List Char :=
  '\\' :: 'u' :: '\x7b' :: Nat.toDigits 16 c.toNat ++ ['\x7d']

/-- A character as a quoted text shows it. -/
def quotedChar (c : Char) : List Char :=
  match c with
  | '"' => ['\\', '"']
  | '\\' => ['\\', '\\']
  | '\n' => ['\\', 'n']
  | '\r' => ['\\', 'r']
  | '\t' => ['\\', 't']
  | '\x00' => ['\\', '0']
  | c => if isPrintable c then [c] else codePointEscape c

/-- A text in double quotes. -/
def quoted (s : String) : String :=
  String.ofList ('"' :: s.toList.flatMap quotedChar ++ ['"'])

end Linework
