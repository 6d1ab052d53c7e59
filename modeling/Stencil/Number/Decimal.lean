import Stencil.Number.Binary64

/-!
# Decimal literals

The text of a decimal number, `digits [. digits] [e [sign] digits]` after an optional sign, and the
binary number it denotes.

* `Decimal.parse?` reads a literal; at least one digit stands before the exponent, on either side of
  the point.
* `Decimal.toBinary64` rounds it to the nearest number, a tie to the even one.
* `digitsValue` is the value of a run of digits in any base.
-/

namespace Stencil

/-- The value of a digit in bases up to sixteen. -/
def digitValue? (base : Nat) (c : Char) : Option Nat :=
  let v :=
    if '0' ≤ c && c ≤ '9' then c.toNat - '0'.toNat
    else if 'a' ≤ c && c ≤ 'f' then c.toNat - 'a'.toNat + 10
    else if 'A' ≤ c && c ≤ 'F' then c.toNat - 'A'.toNat + 10
    else base
  if v < base then some v else none

/-- The value of a text of digits continued from `done`, if they are all digits of the base. -/
def digitsFrom (base : Nat) (done : Nat) : List Char → Option Nat
  | [] => some done
  | c :: s =>
    match digitValue? base c with
    | some v => digitsFrom base (done * base + v) s
    | none => none

/-- The value of a text of one or more digits. -/
def digitsValue? (base : Nat) (s : List Char) : Option Nat :=
  if s.isEmpty then none else digitsFrom base 0 s

/-- A decimal number `digits * 10 ^ exponent` with a sign. -/
structure Decimal where
  negative : Bool
  digits : Nat
  exponent : Int
  deriving DecidableEq

namespace Decimal

/-- A sign in front of a text, and the rest. -/
def sign : List Char → Bool × List Char
  | '-' :: s => (true, s)
  | '+' :: s => (false, s)
  | s => (false, s)

/-- The exponent that ends a literal. -/
def exponent? : List Char → Option Int
  | [] => some 0
  | c :: s =>
    if c = 'e' || c = 'E' then
      let (negative, ds) := sign s
      (digitsValue? 10 ds).map fun n => if negative then -(n : Int) else n
    else none

/-- The literal that a text spells. -/
def parse? (s : List Char) : Option Decimal := do
  let (negative, s) := sign s
  let whole := s.takeWhile Char.isDigit
  let s := s.dropWhile Char.isDigit
  let (part, s) := match s with
    | '.' :: t => (t.takeWhile Char.isDigit, t.dropWhile Char.isDigit)
    | t => ([], t)
  let digits ← digitsValue? 10 (whole ++ part)
  let e ← exponent? s
  return ⟨negative, digits, e - part.length⟩

/-- The number of decimal digits of a natural number; none for zero. -/
def width (n : Nat) : Nat := if n = 0 then 0 else (Nat.toDigits 10 n).length

/-- The nearest binary number. Literals at or above `10 ^ 310` are infinite and those below
`10 ^ (-330)` are zero without a look at their digits. -/
def toBinary64 (d : Decimal) : Binary64 :=
  let top : Int := width d.digits + d.exponent
  if d.digits = 0 || top < -330 then { Binary64.zero with negative := d.negative }
  else if 310 < top then Binary64.infinity d.negative
  else if 0 ≤ d.exponent then .ofRatio d.negative (d.digits * Nat.pow 10 d.exponent.toNat) 1
  else .ofRatio d.negative d.digits (Nat.pow 10 (-d.exponent).toNat)

end Decimal

end Stencil
