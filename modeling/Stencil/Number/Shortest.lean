import Stencil.Number.Binary64

/-!
# Shortest decimal digits

The shortest decimal numeral that is read back as a given binary number. All real numbers of an
interval around a number round to it, the ends included if the significand is even; of the decimal
grids `10 ^ p`, from coarse to fine, the first with a point in the interval gives the digits. A
point of a grid lies in the interval only if one of the two neighbours of the number on that grid
does, so only these are tried; of two that fit the nearer one wins, and `Tie` settles an exact tie.

* `Neighbours` holds a number and the ends of its interval as integers over one denominator.
* `Shortest.digits` is the numeral `digits * 10 ^ exponent`.
-/

namespace Stencil

/-- What happens to a number exactly between two numerals. -/
inductive Tie
  /-- The larger numeral is taken. -/
  | up
  /-- The numeral with an even last digit is taken. -/
  | even
  deriving DecidableEq

/-- A positive finite number and the ends of the interval that rounds to it, as multiples of a
quarter of its unit: over `denominator`, after multiplication by `scale`. -/
structure Neighbours where
  low : Nat
  value : Nat
  high : Nat
  denominator : Nat
  inclusive : Bool

namespace Neighbours

/-- The interval of a positive finite number. -/
def of (x : Binary64) : Neighbours :=
  let m := x.significand
  let e := x.exponent - 2
  let scale := 1 <<< e.toNat
  { low := (4 * m - if x.isNarrowBelow then 1 else 2) * scale
    value := 4 * m * scale
    high := (4 * m + 2) * scale
    denominator := 1 <<< (-e).toNat
    inclusive := m % 2 = 0 }

/-- Whether `c * unit` lies in the interval, all of it scaled by `scale`. -/
def holds (i : Neighbours) (scale unit c : Nat) : Bool :=
  let point := c * unit
  if i.inclusive then i.low * scale ≤ point && point ≤ i.high * scale
  else i.low * scale < point && point < i.high * scale

/-- The numeral for the grid `10 ^ p`, if a point of it lies in the interval. -/
def onGrid (i : Neighbours) (tie : Tie) (p : Int) : Option Nat :=
  let scale := Nat.pow 10 (-p).toNat
  let unit := Nat.pow 10 p.toNat * i.denominator
  let c := i.value * scale / unit
  let below := 0 < c && i.holds scale unit c
  let above := i.holds scale unit (c + 1)
  match below, above with
  | false, false => none
  | true, false => some c
  | false, true => some (c + 1)
  | true, true =>
    match compare (2 * (i.value * scale)) ((2 * c + 1) * unit) with
    | .lt => some c
    | .gt => some (c + 1)
    | .eq => match tie with
      | .up => some (c + 1)
      | .even => some (c + c % 2)

/-- The first numeral on the grids `10 ^ p`, `10 ^ (p - 1)`, … -/
def firstGrid (i : Neighbours) (tie : Tie) (p : Int) : Nat → Nat × Int
  | 0 => (i.value * Nat.pow 10 (-p).toNat / (Nat.pow 10 p.toNat * i.denominator), p)
  | n + 1 =>
    match i.onGrid tie p with
    | some c => (c, p)
    | none => firstGrid i tie (p - 1) n

end Neighbours

/-- A numeral without the zeros at its end: they move into the exponent. -/
def dropZeros : Nat → Nat × Int → Nat × Int
  | 0, numeral => numeral
  | n + 1, (c, p) => if c ≠ 0 && c % 10 = 0 then dropZeros n (c / 10, p + 1) else (c, p)

/-- The shortest numeral `digits * 10 ^ exponent` of a positive finite number. Seventeen digits always
suffice, and the coarsest grid tried has a unit above the number. -/
def Binary64.shortest (x : Binary64) (tie : Tie) : Nat × Int :=
  let i := Neighbours.of x
  let log2 : Int := (x.significand.log2 : Int) + x.exponent
  let top := Int.fdiv (log2 * 30103) 100000
  dropZeros 20 (i.firstGrid tie (top + 2) 22)

end Stencil
