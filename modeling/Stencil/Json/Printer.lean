import Stencil.Json.Basic
import Stencil.Number.Layout

/-!
# JSON text

The compact text of a JSON value: no space between elements, and inside a string only the quote, the
backslash and the control characters are escaped.

* `Json.escape` writes one character of a string.
* `Json.chars` is the text as characters, `Json.text` as a string.
-/

namespace Stencil.Json

/-- A number below sixteen as a lower case hexadecimal digit. -/
def hexDigit (n : Nat) : Char := Nat.digitChar n

/-- A character below U+0100 as `\u` and four hexadecimal digits. -/
def unicodeEscape (c : Char) : List Char :=
  ['\\', 'u', '0', '0', hexDigit (c.toNat / 16 % 16), hexDigit (c.toNat % 16)]

/-- One character of a string. -/
def escape (c : Char) : List Char :=
  if c = '"' || c = '\\' then ['\\', c]
  else if c = '\x08' then ['\\', 'b']
  else if c = '\x0c' then ['\\', 'f']
  else if c = '\n' then ['\\', 'n']
  else if c = '\r' then ['\\', 'r']
  else if c = '\t' then ['\\', 't']
  else if c.toNat < 0x20 then unicodeEscape c
  else [c]

/-- A string in quotes. -/
def stringChars (s : String) : List Char := '"' :: s.toList.flatMap escape ++ ['"']

/-- The decimal text of an integer. -/
def intText (n : Int) : String := toString n

mutual

/-- The text of a value. -/
def chars : Json → List Char
  | .null => "null".toList
  | .bool b => (if b then "true" else "false").toList
  | .int n => (intText n).toList
  | .float x => (Layout.json.text x).toList
  | .string s => stringChars s
  | .array items => '[' :: itemChars items ++ [']']
  | .object entries => '\x7b' :: entryChars entries ++ ['\x7d']

/-- The items of an array, with commas between them. -/
def itemChars : List Json → List Char
  | [] => []
  | [j] => chars j
  | j :: js => chars j ++ ',' :: itemChars js

/-- The entries of an object, with commas between them. -/
def entryChars : List (String × Json) → List Char
  | [] => []
  | [(k, j)] => stringChars k ++ ':' :: chars j
  | (k, j) :: es => stringChars k ++ ':' :: chars j ++ ',' :: entryChars es

end

/-- The text of a value as a string. -/
def text (j : Json) : String := String.ofList j.chars

end Stencil.Json
