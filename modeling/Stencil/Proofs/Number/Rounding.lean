import Mathlib.Algebra.Group.Nat.Defs
import Stencil.Number.Binary64

/-!
# Rounding integers

How the floating point number nearest to an integer depends on the integer.

* `Binary64.ratioMagnitude_one` gives the magnitude of a positive integer: the exponent is its binary
  logarithm, and the rest is rounded to fifty-two bits behind the first one.
* `Binary64.isFinite_ofInt` says that integers of 64 bits are not rounded to infinity.
* `Binary64.totalKey_ofInt_le` says that rounding keeps the order: it may join integers, but it never
  swaps them.
* `Binary64.ofInt_inj` says that it joins none of the integers up to `2 ^ 53`.
-/

namespace Stencil.Binary64

/-! ## Rounded quotients -/

variable {m n d : Nat}

theorem div_le_roundDiv (n d : Nat) : n / d ≤ roundDiv n d := by
  unfold roundDiv
  dsimp only
  split
  · exact Nat.le_refl _
  · split <;> omega

theorem roundDiv_le_succ (n d : Nat) : roundDiv n d ≤ n / d + 1 := by
  unfold roundDiv
  dsimp only
  split
  · omega
  · split <;> omega

/-- Rounding keeps the order of quotients. -/
theorem roundDiv_le (d : Nat) (h : m ≤ n) : roundDiv m d ≤ roundDiv n d := by
  rcases Nat.lt_or_eq_of_le (Nat.div_le_div_right (c := d) h) with hlt | heq
  · have hm := roundDiv_le_succ m d
    have hn := div_le_roundDiv n d
    omega
  · -- with one floor the remainders decide
    have hmod : m % d ≤ n % d := by
      have hm := Nat.div_add_mod m d
      have hn := Nat.div_add_mod n d
      rw [heq] at hm
      omega
    unfold roundDiv
    dsimp only
    rw [heq]
    split
    · split
      · exact Nat.le_refl _
      · split <;> omega
    · next hm =>
      have hn : ¬ 2 * (n % d) < d := by omega
      rw [if_neg hn]
      split <;> split <;> omega

/-- A quotient that is an integer is not rounded. -/
theorem roundDiv_mul (q : Nat) (hd : 0 < d) : roundDiv (q * d) d = q := by
  unfold roundDiv
  simp only [Nat.mul_mod_left, Nat.mul_div_cancel q hd, Nat.mul_zero]
  rw [if_pos hd]

/-- Only the quotient counts. -/
theorem roundDiv_mul_mul (n : Nat) {c : Nat} (hc : 0 < c) :
    roundDiv (n * c) (d * c) = roundDiv n d := by
  unfold roundDiv
  simp only [Nat.mul_mod_mul_right, Nat.mul_div_mul_right _ _ hc, ← Nat.mul_assoc]
  simp only [Nat.mul_lt_mul_right hc, Nat.mul_left_inj (Nat.ne_of_gt hc)]

/-! ## Magnitudes of integers -/

theorem log2Ratio_one (hn : n ≠ 0) : log2Ratio n 1 = n.log2 := by
  have hself : 2 ^ n.log2 ≤ n := Nat.log2_self_le hn
  have hone : Nat.log2 1 = 0 := rfl
  unfold log2Ratio
  simp [Nat.shiftLeft_eq, hone, hself]

/-- The significand of a positive integer, rounded: between one and two times the hidden bit. -/
def roundedSignificand (n : Nat) : Nat := roundDiv (n * hidden) (2 ^ n.log2)

theorem ratioMagnitude_one (hn : n ≠ 0) :
    ratioMagnitude n 1 = (n.log2 + 1022) * hidden + roundedSignificand n := by
  have hhidden : hidden = 2 ^ 52 := rfl
  unfold ratioMagnitude roundedSignificand
  rw [log2Ratio_one hn]
  dsimp only
  have hmax : max ((n.log2 : Int) - 52) (-1074) = (n.log2 : Int) - 52 := by omega
  have hexponent : ((n.log2 : Int) - 52 + 1074).toNat = n.log2 + 1022 := by omega
  rw [hmax, hexponent]
  congr 1
  split
  · next hlarge =>
    have htoNat : ((n.log2 : Int) - 52).toNat = n.log2 - 52 := by omega
    have hpow : 2 ^ n.log2 = 2 ^ (n.log2 - 52) * 2 ^ 52 := by rw [← Nat.pow_add]; congr 1; omega
    rw [htoNat, Nat.shiftLeft_eq, Nat.one_mul, hpow, hhidden, roundDiv_mul_mul _ (by decide)]
  · next hsmall =>
    have htoNat : (-((n.log2 : Int) - 52)).toNat = 52 - n.log2 := by omega
    have hpow : 2 ^ 52 = 2 ^ (52 - n.log2) * 2 ^ n.log2 := by rw [← Nat.pow_add]; congr 1; omega
    rw [htoNat, Nat.shiftLeft_eq, hhidden, hpow, ← Nat.mul_assoc]
    have hscale := roundDiv_mul_mul (d := 1) (n * 2 ^ (52 - n.log2)) (Nat.two_pow_pos n.log2)
    rw [Nat.one_mul] at hscale
    exact hscale.symm

theorem hidden_le_roundedSignificand (hn : n ≠ 0) : hidden ≤ roundedSignificand n := by
  have hpos := Nat.two_pow_pos n.log2
  have hle : hidden * 2 ^ n.log2 ≤ n * hidden := by
    rw [Nat.mul_comm]
    exact Nat.mul_le_mul_right hidden (Nat.log2_self_le hn)
  calc hidden = roundDiv (hidden * 2 ^ n.log2) (2 ^ n.log2) := (roundDiv_mul hidden hpos).symm
    _ ≤ roundedSignificand n := roundDiv_le _ hle

theorem roundedSignificand_le (n : Nat) : roundedSignificand n ≤ 2 * hidden := by
  have hpos := Nat.two_pow_pos n.log2
  have hle : n * hidden ≤ 2 * hidden * 2 ^ n.log2 := by
    have hlt : n < 2 ^ (n.log2 + 1) := Nat.lt_log2_self
    have hmul := Nat.mul_le_mul_right hidden (Nat.le_of_lt hlt)
    rw [Nat.pow_succ] at hmul
    rw [Nat.mul_right_comm, Nat.mul_comm 2]
    exact hmul
  calc roundedSignificand n ≤ roundDiv (2 * hidden * 2 ^ n.log2) (2 ^ n.log2) := roundDiv_le _ hle
    _ = 2 * hidden := roundDiv_mul _ hpos

/-- A magnitude with a smaller logarithm is below the one with the larger logarithm. -/
theorem ratioMagnitude_le_of_log2_lt (hm : m ≠ 0) (h : m.log2 < n.log2) :
    ratioMagnitude m 1 ≤ (n.log2 + 1022) * hidden + hidden := by
  have hle : (m.log2 + 1022) * hidden + hidden ≤ (n.log2 + 1022) * hidden := by
    rw [← Nat.succ_mul]
    exact Nat.mul_le_mul_right hidden (by omega)
  have hsignificand := roundedSignificand_le m
  rw [ratioMagnitude_one hm]
  omega

/-- **The magnitude grows with the integer.** -/
theorem ratioMagnitude_le (hm : m ≠ 0) (h : m ≤ n) : ratioMagnitude m 1 ≤ ratioMagnitude n 1 := by
  have hn : n ≠ 0 := by omega
  have hlog : m.log2 ≤ n.log2 := (Nat.le_log2 hn).2 (Nat.le_trans (Nat.log2_self_le hm) h)
  rw [ratioMagnitude_one hn]
  rcases Nat.lt_or_eq_of_le hlog with hlt | heq
  · have hbelow := ratioMagnitude_le_of_log2_lt hm hlt
    have hsignificand := hidden_le_roundedSignificand hn
    omega
  · have hround : roundedSignificand m ≤ roundedSignificand n := by
      unfold roundedSignificand
      rw [heq]
      exact roundDiv_le _ (Nat.mul_le_mul_right hidden h)
    rw [ratioMagnitude_one hm, heq]
    omega

/-! ## Integers that are not rounded -/

/-- The significand of an integer below `2 ^ 53` is exact. -/
theorem roundedSignificand_mul (h : n < 2 ^ 53) : roundedSignificand n * 2 ^ n.log2 = n * hidden := by
  have hlog : n.log2 ≤ 52 := by
    by_cases hn : n = 0
    · subst hn; decide
    · exact Nat.le_of_lt_succ ((Nat.log2_lt hn).2 h)
  have hpow : hidden = 2 ^ (52 - n.log2) * 2 ^ n.log2 := by
    rw [← Nat.pow_add, Nat.sub_add_cancel hlog]
    rfl
  unfold roundedSignificand
  rw [hpow, ← Nat.mul_assoc, roundDiv_mul _ (Nat.two_pow_pos _)]

/-- **The magnitude tells integers apart up to `2 ^ 53`.** -/
theorem ratioMagnitude_lt (hm : m ≠ 0) (h : m < n) (hn : n ≤ 2 ^ 53) :
    ratioMagnitude m 1 < ratioMagnitude n 1 := by
  have hn0 : n ≠ 0 := by omega
  have hexact := roundedSignificand_mul (Nat.lt_of_lt_of_le h hn)
  have hhidden : 0 < hidden := by decide
  have hpos := Nat.two_pow_pos m.log2
  have hlog : m.log2 ≤ n.log2 := (Nat.le_log2 hn0).2 (Nat.le_trans (Nat.log2_self_le hm) (Nat.le_of_lt h))
  rw [ratioMagnitude_one hm, ratioMagnitude_one hn0]
  rcases Nat.lt_or_eq_of_le hlog with hlt | heq
  · have hbelow : roundedSignificand m < 2 * hidden := by
      refine Nat.lt_of_mul_lt_mul_right (a := 2 ^ m.log2) ?_
      rw [hexact, Nat.mul_right_comm, ← Nat.pow_succ']
      exact (Nat.mul_lt_mul_right hhidden).2 Nat.lt_log2_self
    have hstep : (m.log2 + 1022) * hidden + hidden ≤ (n.log2 + 1022) * hidden := by
      rw [← Nat.succ_mul]
      exact Nat.mul_le_mul_right hidden (by omega)
    have hsignificand := hidden_le_roundedSignificand hn0
    omega
  · have hn53 : n < 2 ^ 53 := by
      rcases Nat.lt_or_eq_of_le hn with hlt | rfl
      · exact hlt
      · -- a smaller integer has a smaller logarithm than the power itself
        have : m.log2 < 53 := (Nat.log2_lt hm).2 h
        rw [heq, Nat.log2_two_pow] at this
        exact absurd this (Nat.lt_irrefl _)
    have hround : roundedSignificand m < roundedSignificand n := by
      refine Nat.lt_of_mul_lt_mul_right (a := 2 ^ m.log2) ?_
      rw [hexact, heq, roundedSignificand_mul hn53]
      exact (Nat.mul_lt_mul_right hhidden).2 h
    rw [heq]
    omega

/-- Integers of 64 bits are far from infinite. -/
theorem ratioMagnitude_lt_infinite (hn : n ≠ 0) (h : n ≤ 2 ^ 64) :
    ratioMagnitude n 1 < infiniteMagnitude := by
  have hlog : n.log2 < 65 := (Nat.log2_lt hn).2 (Nat.lt_of_le_of_lt h (by decide))
  have hexponent : (n.log2 + 1022) * hidden ≤ 1086 * hidden := Nat.mul_le_mul_right hidden (by omega)
  have hsignificand := roundedSignificand_le n
  have hhidden : 0 < hidden := by decide
  rw [ratioMagnitude_one hn]
  unfold infiniteMagnitude
  omega

/-! ## Integers as floating point numbers -/

theorem negative_ofInt (n : Int) : (ofInt n).negative = decide (n < 0) := by
  unfold ofInt ofRatio
  split <;> rfl

theorem magnitude_ofInt_zero : (ofInt 0).magnitude = 0 := rfl

theorem magnitude_ofInt {n : Int} (hn : n ≠ 0) :
    (ofInt n).magnitude = min (ratioMagnitude n.natAbs 1) infiniteMagnitude := by
  unfold ofInt ofRatio
  rw [if_neg (by omega)]

theorem isFinite_ofInt {n : Int} (h : n.natAbs ≤ 2 ^ 64) : (ofInt n).isFinite = true := by
  by_cases hn : n = 0
  · subst hn
    rfl
  · have hfinite := ratioMagnitude_lt_infinite (Int.natAbs_ne_zero.2 hn) h
    rw [isFinite, magnitude_ofInt hn, decide_eq_true_iff]
    exact Nat.lt_of_le_of_lt (Nat.min_le_left _ _) hfinite

theorem magnitude_ofInt_le {m n : Int} (h : m.natAbs ≤ n.natAbs) :
    (ofInt m).magnitude ≤ (ofInt n).magnitude := by
  by_cases hm : m = 0
  · subst hm
    exact Nat.zero_le _
  · rw [magnitude_ofInt hm, magnitude_ofInt (by omega)]
    have := ratioMagnitude_le (by omega) h
    omega

theorem magnitude_ofInt_lt {m n : Int} (h : m.natAbs < n.natAbs) (hn : n.natAbs ≤ 2 ^ 53) :
    (ofInt m).magnitude < (ofInt n).magnitude := by
  have hfinite := ratioMagnitude_lt_infinite (n := n.natAbs) (by omega) (by omega)
  rw [magnitude_ofInt (n := n) (by omega)]
  by_cases hm : m = 0
  · subst hm
    have hhidden : 0 < hidden := by decide
    have hsignificand := hidden_le_roundedSignificand (n := n.natAbs) (by omega)
    rw [magnitude_ofInt_zero, ratioMagnitude_one (by omega)]
    rw [ratioMagnitude_one (by omega)] at hfinite
    omega
  · rw [magnitude_ofInt hm]
    have := ratioMagnitude_lt (by omega) h hn
    omega

/-- **Rounding keeps the order of integers.** -/
theorem totalKey_ofInt_le {m n : Int} (h : m ≤ n) : (ofInt m).totalKey ≤ (ofInt n).totalKey := by
  unfold totalKey
  simp only [negative_ofInt, decide_eq_true_eq]
  split
  · split
    · have := magnitude_ofInt_le (m := n) (n := m) (by omega)
      omega
    · omega
  · have := magnitude_ofInt_le (m := m) (n := n) (by omega)
    rw [if_neg (by omega)]
    omega

/-- **No two integers up to `2 ^ 53` are rounded to one number.** -/
theorem ofInt_inj {m n : Int} (hm : m.natAbs ≤ 2 ^ 53) (hn : n.natAbs ≤ 2 ^ 53) :
    ofInt m = ofInt n ↔ m = n := by
  refine ⟨fun h => ?_, fun h => h ▸ rfl⟩
  have hsign : decide (m < 0) = decide (n < 0) := by rw [← negative_ofInt, ← negative_ofInt, h]
  have habs : m.natAbs = n.natAbs := by
    rcases Nat.lt_trichotomy m.natAbs n.natAbs with hlt | heq | hlt
    · exact absurd (congrArg magnitude h) (Nat.ne_of_lt (magnitude_ofInt_lt hlt hn))
    · exact heq
    · exact absurd (congrArg magnitude h) (Nat.ne_of_gt (magnitude_ofInt_lt hlt hm))
  rw [decide_eq_decide] at hsign
  omega

end Stencil.Binary64
