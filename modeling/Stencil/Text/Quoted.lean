import Stencil.Text.Unprintable

/-!
# Quoted texts

How messages show a text or a character: in quotes, with the quote and the backslash escaped, with
names for the usual control characters and with `\u` and the code point in braces for everything
else that has no printed form.

* `Quoted.escape` writes one character between the given quotes.
* `quoted` and `quotedChar` write a whole text and a single character.
-/

namespace Stencil.Text

namespace Quoted

/-- The code point of a character in lower case hexadecimal digits. -/
def hex (c : Char) : List Char := Nat.toDigits 16 c.toNat

/-- One character between a pair of `quote`s. -/
def escape (quote c : Char) : List Char :=
  if c = quote || c = '\\' then ['\\', c]
  else if c = '\n' then ['\\', 'n']
  else if c = '\r' then ['\\', 'r']
  else if c = '\t' then ['\\', 't']
  else if c = '\x00' then ['\\', '0']
  else if isUnprintable c then ['\\', 'u', '\x7b'] ++ hex c ++ ['\x7d']
  else [c]

end Quoted

/-- A text in double quotes. -/
def quoted (s : String) : String :=
  String.ofList ('"' :: s.toList.flatMap (Quoted.escape '"') ++ ['"'])

/-- A character in single quotes. -/
def quotedChar (c : Char) : String :=
  String.ofList ('\'' :: Quoted.escape '\'' c ++ ['\''])

end Stencil.Text
