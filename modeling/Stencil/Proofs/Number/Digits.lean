import Mathlib.Data.List.Forall2
import Mathlib.Data.Nat.Digits.Defs
import Stencil.Number.Decimal

/-!
# Texts of digits

The number that a text of digits spells in a base up to sixteen. Its letters may have either case.

* `IsDigit v c` says that a character is the digit of a value, and `SpellsIn base s n` that a text spells
  a number: its digits are those of the number in the base, the first one with the highest weight.
* `digitValue?_eq_some_iff` and `digitsValue?_eq_some_iff` say that digits are read as what they spell.
-/

namespace Stencil

/-- The character is the digit of a value, a letter in lower or in upper case. -/
def IsDigit (v : Nat) (c : Char) : Prop := c = v.digitChar ∨ c = v.digitChar.toUpper

instance (v : Nat) (c : Char) : Decidable (IsDigit v c) := instDecidableOr

/-- The text consists of the digits of these values in a base. -/
def DigitsIn (base : Nat) : List Nat → List Char → Prop :=
  List.Forall₂ fun v c => v < base ∧ IsDigit v c

/-- The text spells a number in a base, in one or more digits. -/
def SpellsIn (base : Nat) (s : List Char) (n : Nat) : Prop :=
  s ≠ [] ∧ ∃ vs, DigitsIn base vs s ∧ Nat.ofDigits base vs.reverse = n

variable {base : Nat} {c : Char} {s : List Char} {v n : Nat}

theorem DigitsIn.exists_of_mem {vs : List Nat} (h : DigitsIn base vs s) (hc : c ∈ s) :
    ∃ v < base, IsDigit v c := by
  induction h with
  | nil => cases hc
  | @cons v d vs s hd _ ih =>
    rcases List.mem_cons.1 hc with rfl | hc
    · exact ⟨v, hd.1, hd.2⟩
    · exact ih hc

theorem DigitsIn.lt_of_mem {vs : List Nat} (h : DigitsIn base vs s) (hv : v ∈ vs) : v < base := by
  induction h with
  | nil => cases hv
  | cons hd _ ih =>
    rcases List.mem_cons.1 hv with rfl | hv
    · exact hd.1
    · exact ih hv

theorem SpellsIn.lt (hbase : 1 < base) (h : SpellsIn base s n) : n < base ^ s.length := by
  obtain ⟨-, vs, hvs, rfl⟩ := h
  rw [← hvs.length_eq, ← List.length_reverse]
  exact Nat.ofDigits_lt_base_pow_length hbase fun v hv => hvs.lt_of_mem (List.mem_reverse.1 hv)

/-- Digits are letters or figures. -/
theorem SpellsIn.isAlphanum (hbase : base ≤ 16) (h : SpellsIn base s n) (hc : c ∈ s) :
    c.isAlphanum = true := by
  have hall : ∀ v < 16, v.digitChar.isAlphanum = true ∧ v.digitChar.toUpper.isAlphanum = true := by
    decide
  obtain ⟨-, vs, hvs, -⟩ := h
  obtain ⟨v, hv, hdigit⟩ := hvs.exists_of_mem hc
  rcases hdigit with rfl | rfl
  · exact (hall v (Nat.lt_of_lt_of_le hv hbase)).1
  · exact (hall v (Nat.lt_of_lt_of_le hv hbase)).2

/-! ## Digits -/

/-- The digits of base ten are the figures. -/
theorem IsDigit.isDigit (h : IsDigit v c) (hv : v < 10) : c.isDigit = true := by
  have hfigure : ∀ v < 10, v.digitChar.isDigit = true ∧ v.digitChar.toUpper.isDigit = true := by decide
  rcases h with rfl | rfl
  · exact (hfigure v hv).1
  · exact (hfigure v hv).2

/-- The digits of a base are those of base sixteen that are less. -/
theorem digitValue?_eq_filter (hbase : base ≤ 16) (c : Char) :
    digitValue? base c = (digitValue? 16 c).filter (· < base) := by
  have hless : ∀ v : Nat, (if v < base then some v else none) =
      (if v < 16 then some v else none : Option Nat).filter (· < base) := by
    intro v
    by_cases hv : v < base
    · simp [hv, Nat.lt_of_lt_of_le hv hbase, Option.filter]
    · by_cases hv16 : v < 16 <;> simp [hv, hv16, Option.filter]
  unfold digitValue?
  dsimp only
  split
  · exact hless _
  · split
    · exact hless _
    · split
      · exact hless _
      · simp

theorem digitValue?_digitChar : ∀ v < 16,
    digitValue? 16 v.digitChar = some v ∧ digitValue? 16 v.digitChar.toUpper = some v := by
  decide

/-- All digits come before the letter behind the last of them. -/
theorem toNat_lt_of_digitValue? (h : digitValue? 16 c = some v) : c.toNat < 'g'.toNat := by
  have hle : ∀ a b : Char, a ≤ b ↔ a.toNat ≤ b.toNat := fun _ _ => UInt32.le_iff_toNat_le
  unfold digitValue? at h
  simp only [hle, Bool.and_eq_true, decide_eq_true_eq, Char.reduceToNat] at h
  have hlast : 'g'.toNat = 103 := rfl
  split at h
  · omega
  · split at h
    · omega
    · split at h
      · omega
      · cases h

theorem isDigit_of_digitValue? (h : digitValue? 16 c = some v) : IsDigit v c := by
  have hall : ∀ n < 'g'.toNat, ∀ v < 16, digitValue? 16 (Char.ofNat n) = some v →
      IsDigit v (Char.ofNat n) := by
    decide +kernel
  have hv : v < 16 := by
    unfold digitValue? at h
    dsimp only at h
    grind
  have hdigit := hall c.toNat (toNat_lt_of_digitValue? h) v hv
  rw [Char.ofNat_toNat] at hdigit
  exact hdigit h

/-- **A digit is read as its value**, if it is one of the base. -/
theorem digitValue?_eq_some_iff (hbase : base ≤ 16) :
    digitValue? base c = some v ↔ v < base ∧ IsDigit v c := by
  rw [digitValue?_eq_filter hbase, Option.filter_eq_some_iff, decide_eq_true_eq, and_comm]
  refine and_congr_right fun hv => ⟨isDigit_of_digitValue?, ?_⟩
  obtain ⟨hlower, hupper⟩ := digitValue?_digitChar v (Nat.lt_of_lt_of_le hv hbase)
  rintro (rfl | rfl)
  · exact hlower
  · exact hupper

/-! ## Numbers -/

theorem digitsFrom_eq_some_iff (hbase : base ≤ 16) : ∀ {done : Nat}, digitsFrom base done s = some n ↔
    ∃ vs, DigitsIn base vs s ∧ done * base ^ s.length + Nat.ofDigits base vs.reverse = n := by
  induction s with
  | nil =>
    intro done
    simp [digitsFrom, DigitsIn]
  | cons c s ih =>
    intro done
    have hvalue : ∀ v : Nat, ∀ vs, DigitsIn base vs s →
        (done * base + v) * base ^ s.length + Nat.ofDigits base vs.reverse =
          done * base ^ (c :: s).length + Nat.ofDigits base (v :: vs).reverse := by
      intro v vs hvs
      rw [List.reverse_cons, Nat.ofDigits_append, Nat.ofDigits_singleton, List.length_reverse,
        hvs.length_eq, List.length_cons]
      ring
    constructor
    · intro h
      rw [digitsFrom] at h
      cases hv : digitValue? base c with
      | none => simp [hv] at h
      | some v =>
        rw [hv] at h
        obtain ⟨vs, hvs, rfl⟩ := ih.1 h
        exact ⟨v :: vs, .cons ((digitValue?_eq_some_iff hbase).1 hv) hvs, (hvalue v vs hvs).symm⟩
    · rintro ⟨_, hdigits, rfl⟩
      obtain ⟨v, vs, hv, hvs, rfl⟩ := List.forall₂_cons_right_iff.1 hdigits
      rw [digitsFrom, (digitValue?_eq_some_iff hbase).2 hv]
      exact ih.2 ⟨vs, hvs, hvalue v vs hvs⟩

/-- **A text of digits is read as the number that it spells.** -/
theorem digitsValue?_eq_some_iff (hbase : base ≤ 16) :
    digitsValue? base s = some n ↔ SpellsIn base s n := by
  unfold digitsValue? SpellsIn
  cases s with
  | nil => simp
  | cons c s => simp [digitsFrom_eq_some_iff hbase]

end Stencil
