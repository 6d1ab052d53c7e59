/-!
# Binary floating point numbers of 64 bits

A number is its sign and the other 63 bits read as a natural number: eleven bits of exponent above
fifty-two bits of fraction. Read this way the magnitude grows with the absolute value, infinity is
one fixed magnitude, and the magnitudes above it are not numbers.

* `significand` and `exponent` give a finite magnitude as `significand * 2 ^ exponent`.
* `totalCompare` orders all 2 ^ 64 patterns, `compare?` only numbers.
* `ofRatio` rounds a quotient of natural numbers to the nearest number, a tie to the even one;
  `ofInt` is its case for integers.
-/

namespace Stencil

/-- The bits of a number: its sign and the remaining 63. -/
structure Binary64 where
  negative : Bool
  magnitude : Nat
  magnitude_lt : magnitude < 0x8000000000000000 := by decide
  deriving DecidableEq

namespace Binary64

/-- The number of fraction bits as a power: `2 ^ 52`. -/
def hidden : Nat := 0x10000000000000

/-- The magnitude of infinity: all exponent bits set, no fraction bit. -/
def infiniteMagnitude : Nat := 2047 * hidden

/-- Zero without a sign. -/
def zero : Binary64 := ⟨false, 0, by decide⟩

/-- The infinity of a sign. -/
def infinity (negative : Bool) : Binary64 := ⟨negative, infiniteMagnitude, by decide⟩

/-- Whether the bits are not a number. -/
def isNaN (x : Binary64) : Bool := infiniteMagnitude < x.magnitude

/-- Whether the number is infinite. -/
def isInfinite (x : Binary64) : Bool := x.magnitude = infiniteMagnitude

/-- Whether the number is finite. -/
def isFinite (x : Binary64) : Bool := x.magnitude < infiniteMagnitude

/-- Whether the number is a zero of either sign. -/
def isZero (x : Binary64) : Bool := x.magnitude = 0

/-! ## The value of a finite number -/

/-- The exponent bits. -/
def exponentField (x : Binary64) : Nat := x.magnitude / hidden

/-- The fraction bits. -/
def fraction (x : Binary64) : Nat := x.magnitude % hidden

/-- The integer that the power of two is a multiple of: the fraction, with the hidden bit unless the
number is subnormal. -/
def significand (x : Binary64) : Nat :=
  if x.exponentField = 0 then x.fraction else hidden + x.fraction

/-- The power of two that counts one unit of the significand. -/
def exponent (x : Binary64) : Int :=
  if x.exponentField = 0 then -1074 else (x.exponentField : Int) - 1075

/-- Whether the next smaller number is only half as far away as the next larger one: so it is at
every power of two but the least normal one. -/
def isNarrowBelow (x : Binary64) : Bool := x.fraction = 0 && 1 < x.exponentField

/-! ## Order -/

/-- The place of a pattern in the total order, in which the negative patterns come first and the
zeros are told apart. -/
def totalKey (x : Binary64) : Int :=
  if x.negative then -(x.magnitude : Int) - 1 else x.magnitude

/-- The total order of all patterns. -/
def totalCompare (x y : Binary64) : Ordering := compare x.totalKey y.totalKey

/-- The place of a number on the number line; the zeros share one. -/
def numericKey (x : Binary64) : Int :=
  if x.negative then -(x.magnitude : Int) else x.magnitude

/-- The numeric order, if both patterns are numbers. -/
def compare? (x y : Binary64) : Option Ordering :=
  if x.isNaN || y.isNaN then none else some (compare x.numericKey y.numericKey)

theorem totalKey_inj {x y : Binary64} (h : x.totalKey = y.totalKey) : x = y := by
  obtain ⟨nx, mx, hx⟩ := x
  obtain ⟨ny, my, hy⟩ := y
  simp only [totalKey] at h
  cases nx <;> cases ny <;> simp at h ⊢ <;> omega

theorem totalCompare_eq_iff {x y : Binary64} : x.totalCompare y = .eq ↔ x = y := by
  simp only [totalCompare, Std.LawfulEqOrd.compare_eq_iff_eq]
  exact ⟨totalKey_inj, fun h => h ▸ rfl⟩

/-! ## Rounding -/

/-- The quotient rounded to the nearest integer, a tie to the even one. -/
def roundDiv (n d : Nat) : Nat :=
  let q := n / d
  let r := n % d
  if 2 * r < d then q
  else if 2 * r = d then q + q % 2
  else q + 1

/-- The floor of the binary logarithm of `n / d`, both positive. -/
def log2Ratio (n d : Nat) : Int :=
  let k : Int := (n.log2 : Int) - d.log2
  let reached := if 0 ≤ k then d <<< k.toNat ≤ n else d ≤ n <<< (-k).toNat
  if reached then k else k - 1

/-- The magnitude nearest to `n / d`, both positive; infinity if that is out of range. -/
def ratioMagnitude (n d : Nat) : Nat :=
  let e := max (log2Ratio n d - 52) (-1074)
  let q := if 0 ≤ e then roundDiv n (d <<< e.toNat) else roundDiv (n <<< (-e).toNat) d
  -- the significand carries its hidden bit into the exponent bits
  (e + 1074).toNat * hidden + q

theorem min_infinite_lt (m : Nat) : min m infiniteMagnitude < 0x8000000000000000 :=
  Nat.lt_of_le_of_lt (Nat.min_le_right _ _) (by decide)

/-- The number nearest to `n / d` for a positive `d`. -/
def ofRatio (negative : Bool) (n d : Nat) : Binary64 :=
  if n = 0 then ⟨negative, 0, by decide⟩
  else ⟨negative, min (ratioMagnitude n d) infiniteMagnitude, min_infinite_lt _⟩

/-- The number nearest to an integer. -/
def ofInt (n : Int) : Binary64 := ofRatio (n < 0) n.natAbs 1

end Binary64

end Stencil
