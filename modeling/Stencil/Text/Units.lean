/-!
# Code units in string literals

A string literal writes some of its characters as escapes that hold UTF-16 code units. Two
surrogates, a high one directly followed by a low one, give one character; a surrogate in any other
place denotes nothing.

* `Piece` is a part of a literal: a character, or a unit that was escaped.
* `joinUnits` gives the characters that a list of pieces denotes.
-/

namespace Stencil.Text

/-- A part of a string literal. -/
inductive Piece where
  /-- A character of its own. -/
  | char (c : Char)
  /-- A code unit. -/
  | unit (n : Nat)
  deriving DecidableEq

/-- The units that begin a pair. -/
def isHighSurrogate (n : Nat) : Bool := 0xd800 ≤ n && n < 0xdc00

/-- The units that end a pair. -/
def isLowSurrogate (n : Nat) : Bool := 0xdc00 ≤ n && n < 0xe000

/-- The character of a pair. -/
def pairChar (high low : Nat) : Char :=
  Char.ofNat (0x10000 + (high - 0xd800) * 0x400 + (low - 0xdc00))

/-- The characters that the pieces denote, if every surrogate is part of a pair. -/
def joinUnits : List Piece → Option (List Char)
  | [] => some []
  | .char c :: ps => (joinUnits ps).map (c :: ·)
  | .unit n :: ps =>
    if isHighSurrogate n then
      match ps with
      | .unit m :: rest =>
        if isLowSurrogate m then (joinUnits rest).map (pairChar n m :: ·) else none
      | _ => none
    else if isLowSurrogate n then none
    else (joinUnits ps).map (Char.ofNat n :: ·)

/-- Pieces without units denote their characters. -/
theorem joinUnits_map_char (s : List Char) : joinUnits (s.map .char) = some s := by
  induction s with
  | nil => rfl
  | cons c s ih => simp [joinUnits, ih]

end Stencil.Text
