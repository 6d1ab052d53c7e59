import Stencil.Number.Shortest

/-!
# Number texts

How the digits of a number are laid out. A `Layout` says which numbers are written positionally, how
an exponent is written, and what stands for zero, infinity and what is not a number.

* `Layout.plain` is the text of a number in output: always positional, `1` for a whole number.
* `Layout.debug` is the text in messages: `1.0`, with an exponent from `1e16` on and below `1e-4`.
* `Layout.json` is the text in JSON: `1.0`, with an exponent from `1e+16` on and below `1e-5`.
-/

namespace Stencil

/-- The decisions of a number text. -/
structure Layout where
  /-- Whether a number whose first digit counts `10 ^ e` is written without an exponent. -/
  positional : Int → Bool
  /-- What follows a whole number written positionally. -/
  wholeMark : String
  /-- What stands before an exponent that is not negative. -/
  exponentPlus : String
  /-- The text of an infinity, by its sign. -/
  infinite : Bool → String
  /-- The text of what is not a number. -/
  notANumber : String
  /-- What decides between two shortest numerals. -/
  tie : Tie

namespace Layout

/-- Numbers in output. -/
def plain : Layout :=
  { positional := fun _ => true
    wholeMark := ""
    exponentPlus := ""
    infinite := fun negative => if negative then "-inf" else "inf"
    notANumber := "NaN"
    tie := .up }

/-- Numbers in messages. -/
def debug : Layout :=
  { plain with
    positional := fun e => -4 ≤ e && e < 16
    wholeMark := ".0" }

/-- Numbers in JSON, which has no text for the others. -/
def json : Layout :=
  { positional := fun e => -5 ≤ e && e < 16
    wholeMark := ".0"
    exponentPlus := "+"
    infinite := fun _ => "null"
    notANumber := "null"
    tie := .even }

/-- A run of zeros. -/
def zeros (n : Nat) : String := String.ofList (List.replicate n '0')

/-- The digits `ds` with the last counting `10 ^ p`, written positionally. -/
def fixed (wholeMark : String) (ds : List Char) (p : Int) : String :=
  let before : Int := ds.length + p
  if 0 ≤ p then String.ofList ds ++ zeros p.toNat ++ wholeMark
  else if 0 < before then
    String.ofList (ds.take before.toNat) ++ "." ++ String.ofList (ds.drop before.toNat)
  else "0." ++ zeros (-before).toNat ++ String.ofList ds

/-- The digits `ds` with the first counting `10 ^ e`, written with an exponent. -/
def scientific (exponentPlus : String) (ds : List Char) (e : Int) : String :=
  let point := if ds.length ≤ 1 then "" else "."
  let mark := if 0 ≤ e then exponentPlus else ""
  String.ofList (ds.take 1) ++ point ++ String.ofList (ds.drop 1) ++ "e" ++ mark ++ toString e

/-- The text of the absolute value of a finite number. -/
def magnitude (l : Layout) (x : Binary64) : String :=
  if x.isZero then "0" ++ l.wholeMark
  else
    let (c, p) := x.shortest l.tie
    let ds := Nat.toDigits 10 c
    let e : Int := ds.length + p - 1
    if l.positional e then fixed l.wholeMark ds p else scientific l.exponentPlus ds e

/-- The text of a number. -/
def text (l : Layout) (x : Binary64) : String :=
  if x.isNaN then l.notANumber
  else if x.isInfinite then l.infinite x.negative
  else (if x.negative then "-" else "") ++ l.magnitude x

end Layout

end Stencil
