import Mathlib
import Stencil.Number.Shortest

/-!
# Shortest digits are not zero

The shortest numeral of a number that is no zero has digits that are no zero, also if none of the grids
that are tried has a point in the interval of the number.

* `Neighbours.firstGrid_pos` needs the finest grid to have its unit below the number, and
  `ten_pow_le_two_pow` compares that unit with the power of two below the number.
* `Binary64.shortest_pos` is the conclusion.
-/

namespace Stencil

variable {i : Neighbours} {tie : Tie} {p : Int} {c n : Nat}

namespace Neighbours

theorem onGrid_pos (h : i.onGrid tie p = some c) : 0 < c := by
  unfold onGrid at h
  dsimp only at h
  split at h
  · cases h
  · next hbelow _ =>
    rw [Bool.and_eq_true, decide_eq_true_eq] at hbelow
    cases h
    exact hbelow.1
  · cases h
    exact Nat.succ_pos _
  · next hbelow _ =>
    rw [Bool.and_eq_true, decide_eq_true_eq] at hbelow
    split at h
    · cases h
      exact hbelow.1
    · cases h
      exact Nat.succ_pos _
    · split at h
      · cases h
        exact Nat.succ_pos _
      · cases h
        exact Nat.add_pos_left hbelow.1 _

/-- The digits are no zero if the unit of the last grid is at most the number. -/
theorem firstGrid_pos (hunit : 0 < i.denominator)
    (hlast : 10 ^ (p - n).toNat * i.denominator ≤ i.value * 10 ^ (-(p - n)).toNat) :
    0 < (i.firstGrid tie p n).1 := by
  induction n generalizing p with
  | zero =>
    rw [Nat.cast_zero, sub_zero] at hlast
    exact Nat.div_pos hlast (Nat.mul_pos (Nat.pow_pos (by decide)) hunit)
  | succ n ih =>
    rw [firstGrid]
    split
    · next c hc => exact onGrid_pos hc
    · refine ih ?_
      have hexponent : p - 1 - (n : Int) = p - (n + 1 : Nat) := by omega
      rwa [hexponent]

end Neighbours

theorem dropZeros_pos {numeral : Nat × Int} (h : 0 < numeral.1) : 0 < (dropZeros n numeral).1 := by
  induction n generalizing numeral with
  | zero => exact h
  | succ n ih =>
    obtain ⟨c, p⟩ := numeral
    rw [dropZeros]
    split
    · next hc =>
      simp only [Bool.and_eq_true, decide_eq_true_eq] at hc
      refine ih ?_
      dsimp only at h ⊢
      omega
    · exact h

/-- The grid of the twenty-second attempt is finer than the power of two. -/
theorem ten_pow_le_two_pow {k q : Int} (hlow : -1074 ≤ k) (hhigh : k ≤ 1024)
    (hq : q = Int.fdiv (k * 30103) 100000 - 20) :
    10 ^ q.toNat * 2 ^ (-k).toNat ≤ 2 ^ k.toNat * 10 ^ (-q).toNat := by
  rw [Int.fdiv_eq_ediv_of_nonneg _ (by decide)] at hq
  rcases Int.le_total 0 k with hk | hk
  · -- three digits for ten bits
    have hdigits : q.toNat ≤ 3 * (k.toNat / 10) := by omega
    have hbits : 10 * (k.toNat / 10) ≤ k.toNat := Nat.mul_div_le _ _
    have hnone : (-k).toNat = 0 := by omega
    calc 10 ^ q.toNat * 2 ^ (-k).toNat
      _ ≤ 10 ^ (3 * (k.toNat / 10)) := by
          rw [hnone, pow_zero, mul_one]
          exact Nat.pow_le_pow_right (by decide) hdigits
      _ = (10 ^ 3) ^ (k.toNat / 10) := pow_mul _ _ _
      _ ≤ (2 ^ 10) ^ (k.toNat / 10) := Nat.pow_le_pow_left (by decide) _
      _ = 2 ^ (10 * (k.toNat / 10)) := (pow_mul _ _ _).symm
      _ ≤ 2 ^ k.toNat := Nat.pow_le_pow_right (by decide) hbits
      _ ≤ 2 ^ k.toNat * 10 ^ (-q).toNat := Nat.le_mul_of_pos_right _ (Nat.pow_pos (by decide))
  · -- thirteen bits for four digits
    have hdigits : 4 * ((-k).toNat / 13 + 1) ≤ (-q).toNat := by omega
    have hbits : (-k).toNat ≤ 13 * ((-k).toNat / 13 + 1) := by omega
    have hnone : q.toNat = 0 := by omega
    calc 10 ^ q.toNat * 2 ^ (-k).toNat
      _ ≤ 2 ^ (13 * ((-k).toNat / 13 + 1)) := by
          rw [hnone, pow_zero, one_mul]
          exact Nat.pow_le_pow_right (by decide) hbits
      _ = (2 ^ 13) ^ ((-k).toNat / 13 + 1) := pow_mul _ _ _
      _ ≤ (10 ^ 4) ^ ((-k).toNat / 13 + 1) := Nat.pow_le_pow_left (by decide) _
      _ = 10 ^ (4 * ((-k).toNat / 13 + 1)) := (pow_mul _ _ _).symm
      _ ≤ 10 ^ (-q).toNat := Nat.pow_le_pow_right (by decide) hdigits
      _ ≤ 2 ^ k.toNat * 10 ^ (-q).toNat := Nat.le_mul_of_pos_left _ (Nat.two_pow_pos _)

namespace Binary64

variable {x : Binary64}

theorem significand_pos (hx : x.isZero = false) : 0 < x.significand := by
  have hmagnitude : x.magnitude ≠ 0 := by simpa [isZero] using hx
  have hdiv := Nat.div_add_mod x.magnitude hidden
  have hhidden : hidden = 0x10000000000000 := rfl
  unfold significand exponentField fraction
  split
  · next h =>
    rw [h, Nat.mul_zero, Nat.zero_add] at hdiv
    omega
  · omega

theorem log2_significand_le (x : Binary64) : x.significand.log2 ≤ 52 := by
  have hmod : x.fraction < hidden := Nat.mod_lt _ (by decide)
  have hhidden : hidden = 2 ^ 52 := rfl
  have hlt : x.significand < 2 ^ 53 := by
    unfold significand
    split <;> omega
  by_cases hzero : x.significand = 0
  · rw [hzero]
    decide
  · exact Nat.le_of_lt_succ ((Nat.log2_lt hzero).2 hlt)

theorem exponent_bounds (x : Binary64) : -1074 ≤ x.exponent ∧ x.exponent ≤ 972 := by
  have hlt := x.magnitude_lt
  have hfield : x.exponentField < 2048 := by
    unfold exponentField hidden
    omega
  unfold exponent
  split <;> omega

/-- A number is at least the power of two of its first bit. -/
theorem two_pow_le_value (hx : x.isZero = false) {k : Int} (hk : k = x.significand.log2 + x.exponent) :
    2 ^ k.toNat * (Neighbours.of x).denominator ≤ (Neighbours.of x).value * 2 ^ (-k).toNat := by
  have hlog := Nat.log2_self_le (Nat.ne_of_gt (significand_pos hx))
  simp only [Neighbours.of, Nat.shiftLeft_eq, one_mul]
  calc 2 ^ k.toNat * 2 ^ (-(x.exponent - 2)).toNat
    _ = 2 ^ 2 * 2 ^ x.significand.log2 * 2 ^ (x.exponent - 2).toNat * 2 ^ (-k).toNat := by
        simp only [← pow_add]
        congr 1
        omega
    _ ≤ 4 * x.significand * 2 ^ (x.exponent - 2).toNat * 2 ^ (-k).toNat :=
        Nat.mul_le_mul_right _ (Nat.mul_le_mul_right _ (Nat.mul_le_mul_left _ hlog))

/-- **The shortest digits of a number that is no zero are none.** -/
theorem shortest_pos (hx : x.isZero = false) (tie : Tie) : 0 < (x.shortest tie).1 := by
  have hlog := log2_significand_le x
  obtain ⟨hlow, hhigh⟩ := exponent_bounds x
  unfold shortest
  dsimp only
  generalize hk : (x.significand.log2 : Int) + x.exponent = k
  have hvalue := two_pow_le_value hx hk.symm
  have hdenominator : 0 < (Neighbours.of x).denominator := by simp [Neighbours.of, Nat.shiftLeft_eq]
  refine dropZeros_pos (Neighbours.firstGrid_pos hdenominator ?_)
  generalize hq : Int.fdiv (k * 30103) 100000 + 2 - (22 : Nat) = q
  have hunit : 10 ^ q.toNat * 2 ^ (-k).toNat ≤ 2 ^ k.toNat * 10 ^ (-q).toNat :=
    ten_pow_le_two_pow (by omega) (by omega) (by omega)
  -- the power of two between the unit and the number cancels
  refine Nat.le_of_mul_le_mul_right ?_ (Nat.mul_pos (Nat.two_pow_pos k.toNat) (Nat.two_pow_pos (-k).toNat))
  calc 10 ^ q.toNat * (Neighbours.of x).denominator * (2 ^ k.toNat * 2 ^ (-k).toNat)
    _ = 10 ^ q.toNat * 2 ^ (-k).toNat * (2 ^ k.toNat * (Neighbours.of x).denominator) := by ring
    _ ≤ 2 ^ k.toNat * 10 ^ (-q).toNat * ((Neighbours.of x).value * 2 ^ (-k).toNat) :=
        Nat.mul_le_mul hunit hvalue
    _ = (Neighbours.of x).value * 10 ^ (-q).toNat * (2 ^ k.toNat * 2 ^ (-k).toNat) := by ring

end Binary64

end Stencil
