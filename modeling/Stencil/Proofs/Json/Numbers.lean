import Stencil.Json.Printer
import Stencil.Proofs.Json.Grammar
import Stencil.Proofs.Number.Shortest
import Stencil.Proofs.Pipeline.Spelling

/-!
# Numbers of JSON

Every text that is a number in the grammar of JSON is read as one, and the numbers that are written are
such texts.

* `Json.exists_number?` says that numbers of the grammar are read.
* `Json.numberText_intText` and `Json.numberText_text` say that integers and finite floating point numbers
  are written as numbers of the grammar. No zero stands in front of other figures: the digits of a
  number that is no zero are none either.
-/

namespace Stencil.Json

variable {s t ds : List Char} {c : Char}

/-! ## Numbers are read -/

theorem Figures.exists_value (h : Figures ds) : ∃ n, digitsValue? 10 ds = some n := by
  rw [digitsValue?, if_neg (by simpa using h.1)]
  exact ⟨_, Numeral.digitsFrom_of_digits h.2 0⟩

/-- A text of figures has no sign. -/
theorem sign_of_isDigit (hc : c.isDigit = true) (s : List Char) :
    Decimal.sign (c :: s) = (false, c :: s) := by
  unfold Decimal.sign
  split
  · next heq => cases heq; cases hc
  · next heq => cases heq; cases hc
  · rfl

theorem Figures.exists_cons (h : Figures ds) : ∃ c s, ds = c :: s ∧ c.isDigit = true := by
  obtain ⟨hne, hall⟩ := h
  cases ds with
  | nil => exact absurd rfl hne
  | cons c s => exact ⟨c, s, rfl, by simpa using List.all_eq_true.1 hall c List.mem_cons_self⟩

theorem ExponentText.exists_exponent? (h : ExponentText s) : ∃ e, Decimal.exponent? s = some e := by
  cases h with
  | none => exact ⟨0, rfl⟩
  | @exponent e sign ds he hsign hds =>
    obtain ⟨n, hn⟩ := hds.exists_value
    have hsigns : ∃ negative, Decimal.sign (sign ++ ds) = (negative, ds) := by
      simp only [List.mem_cons, List.not_mem_nil, or_false] at hsign
      rcases hsign with rfl | rfl | rfl
      · obtain ⟨c, s, rfl, hc⟩ := hds.exists_cons
        exact ⟨false, sign_of_isDigit hc s⟩
      · exact ⟨false, rfl⟩
      · exact ⟨true, rfl⟩
    obtain ⟨negative, hsign⟩ := hsigns
    refine ⟨if negative then -(n : Int) else n, ?_⟩
    have hletter : (e = 'e' || e = 'E') = true := by simpa using he
    rw [Decimal.exponent?, if_pos hletter, hsign]
    simp [hn]

theorem Figures.of_wholeText (h : WholeText s) : Figures s := by
  cases h with
  | zero => exact ⟨List.cons_ne_nil _ _, rfl⟩
  | figures _ h => exact h

theorem Figures.append (h : Figures s) (ht : t.all Char.isDigit = true) : Figures (s ++ t) :=
  ⟨List.append_ne_nil_of_left_ne_nil h.1 t, by rw [List.all_append, h.2, ht]; rfl⟩

theorem ExponentText.stops (h : ExponentText s) : ∀ c ∈ s.head?, c.isDigit = false ∧ c ≠ '.' := by
  intro c hc
  cases h with
  | none => cases hc
  | exponent he => cases hc; rcases he with rfl | rfl <;> decide

/-- A number without a sign is read behind every sign. -/
theorem UnsignedText.exists_parse? (h : UnsignedText s) {negative : Bool}
    (hsign : Decimal.sign t = (negative, s)) : ∃ d, Decimal.parse? t = some d := by
  obtain @⟨whole, fraction, exponent, hwhole, hfraction, hexponent⟩ := h
  obtain ⟨e, he⟩ := hexponent.exists_exponent?
  have hstops := hexponent.stops
  have hfigures := Figures.of_wholeText hwhole
  cases hfraction with
  | none =>
    obtain ⟨n, hn⟩ := hfigures.exists_value
    have hend : ∀ c ∈ exponent.head?, c.isDigit = false := fun c hc => (hstops c hc).1
    have htake := takeWhile_append_of_stops hfigures.2 hend
    have hdrop := dropWhile_append_of_stops hfigures.2 hend
    refine ⟨⟨negative, n, e⟩, ?_⟩
    unfold Decimal.parse?
    simp only [hsign, List.nil_append, htake, hdrop]
    split
    · exact absurd rfl (hstops '.' rfl).2
    · simp [hn, he]
  | @point ds hds =>
    obtain ⟨n, hn⟩ := (hfigures.append hds.2).exists_value
    have hend : ∀ c ∈ exponent.head?, c.isDigit = false := fun c hc => (hstops c hc).1
    have htake := takeWhile_append_of_stops hds.2 hend
    have hdrop := dropWhile_append_of_stops hds.2 hend
    have hpoint : ∀ c ∈ ('.' :: (ds ++ exponent)).head?, c.isDigit = false := fun c hc => by
      cases hc; rfl
    have htake' := takeWhile_append_of_stops hfigures.2 hpoint
    have hdrop' := dropWhile_append_of_stops hfigures.2 hpoint
    refine ⟨⟨negative, n, e - ds.length⟩, ?_⟩
    unfold Decimal.parse?
    simp only [hsign, List.cons_append, htake', hdrop', htake, hdrop]
    simp [hn, he]

/-- **Numbers are read.** -/
theorem exists_number? (h : NumberText t) : ∃ j, number? t = some j := by
  have hread : ∃ d, Decimal.parse? t = some d := by
    cases h with
    | unsigned h =>
      have hsign : Decimal.sign t = (false, t) := by
        obtain ⟨hwhole, -, -⟩ := h
        obtain ⟨c, s, rfl, hc⟩ := (Figures.of_wholeText hwhole).exists_cons
        exact sign_of_isDigit hc _
      exact h.exists_parse? hsign
    | minus h => exact h.exists_parse? rfl
  obtain ⟨d, hd⟩ := hread
  rw [← Option.isSome_iff_exists, number?, hd]
  dsimp only [bind, Option.bind]
  split_ifs <;> rfl

/-! ## Numbers that are written -/

theorem figures_toDigits (n : Nat) : Figures (Nat.toDigits 10 n) :=
  ⟨Nat.toDigits_ne_nil, (exists_toDigits_eq_cons n).1⟩

/-- The digits of a number that is no zero do not start with one. -/
theorem exists_toDigits_of_pos {n : Nat} (hn : 0 < n) :
    ∃ d ds, Nat.toDigits 10 n = d :: ds ∧ d ≠ '0' := by
  induction n using Nat.strongRecOn with
  | ind n ih =>
    have hdigit : ∀ v < 10, 0 < v → Nat.digitChar v ≠ '0' := by decide
    rcases Nat.lt_or_ge n 10 with hsmall | hlarge
    · exact ⟨_, [], Nat.toDigits_of_lt_base hsmall, hdigit n hsmall hn⟩
    · obtain ⟨d, ds, heq, hd⟩ := ih (n / 10) (by omega) (by omega)
      rw [Nat.toDigits_of_base_le (by decide) hlarge, heq]
      exact ⟨d, ds ++ [(n % 10).digitChar], rfl, hd⟩

theorem wholeText_toDigits (n : Nat) : WholeText (Nat.toDigits 10 n) := by
  rcases Nat.eq_zero_or_pos n with rfl | hn
  · exact .zero
  · obtain ⟨d, ds, heq, hd⟩ := exists_toDigits_of_pos hn
    have hfigures := figures_toDigits n
    rw [heq] at hfigures ⊢
    exact .figures hd hfigures

theorem numberText_intText (n : Int) : NumberText (intText n).toList := by
  have hwhole : ∀ n : Nat, UnsignedText (Nat.toDigits 10 n) := fun n => by
    simpa using UnsignedText.mk (wholeText_toDigits n) .none .none
  cases n with
  | ofNat n =>
    rw [intText, toList_toString_ofNat]
    exact .unsigned (hwhole n)
  | negSucc n =>
    rw [intText, toList_toString_negSucc]
    exact .minus (hwhole (n + 1))

theorem Figures.of_sublist (h : Figures ds) (hs : s.Sublist ds) (hne : s ≠ []) : Figures s :=
  ⟨hne, List.all_eq_true.2 fun c hc => List.all_eq_true.1 h.2 c (hs.subset hc)⟩

theorem all_isDigit_zeros (n : Nat) : (List.replicate n '0').all Char.isDigit = true := by simp

/-- Digits that are written positionally. -/
theorem unsignedText_fixed (h : Figures (c :: ds)) (hc : c ≠ '0') (p : Int) :
    UnsignedText (Layout.fixed ".0" (c :: ds) p).toList := by
  unfold Layout.fixed Layout.zeros
  dsimp only
  split
  · have hwhole : WholeText (c :: ds ++ List.replicate p.toNat '0') :=
      .figures hc (h.append (all_isDigit_zeros _))
    have hfraction : FractionText ['.', '0'] := .point ⟨List.cons_ne_nil _ _, rfl⟩
    simpa using UnsignedText.mk hwhole hfraction .none
  · next hp =>
    split
    · next hbefore =>
      generalize hcount : (((c :: ds).length : Int) + p).toNat = count
      have hfraction : FractionText ('.' :: (c :: ds).drop count) := by
        refine .point (h.of_sublist (List.drop_sublist _ _) ?_)
        rw [Ne, List.drop_eq_nil_iff]
        omega
      obtain ⟨n, rfl⟩ : ∃ n, count = n + 1 := ⟨count - 1, by omega⟩
      have hwhole : WholeText (c :: ds.take n) :=
        .figures hc (h.of_sublist ((List.take_sublist n ds).cons_cons c) (List.cons_ne_nil _ _))
      simpa using UnsignedText.mk hwhole hfraction .none
    · generalize (-(((c :: ds).length : Int) + p)).toNat = n
      have hfraction : FractionText ('.' :: (List.replicate n '0' ++ c :: ds)) := by
        refine .point ⟨by simp, ?_⟩
        rw [List.all_append, all_isDigit_zeros, h.2]
        rfl
      simpa using UnsignedText.mk .zero hfraction .none

/-- The exponent of a number. -/
theorem exponentText_scientific (e : Int) :
    ExponentText ('e' :: ((if 0 ≤ e then "+" else "") ++ toString e).toList) := by
  cases e with
  | ofNat n =>
    have hsign : 0 ≤ Int.ofNat n := Int.natCast_nonneg n
    have hexponent : ExponentText ('e' :: (['+'] ++ Nat.toDigits 10 n)) :=
      .exponent (.inl rfl) (by decide) (figures_toDigits n)
    rw [if_pos hsign, String.toList_append, toList_toString_ofNat]
    exact hexponent
  | negSucc n =>
    have hsign : ¬ 0 ≤ Int.negSucc n := by omega
    have hexponent : ExponentText ('e' :: (['-'] ++ Nat.toDigits 10 (n + 1))) :=
      .exponent (.inl rfl) (by decide) (figures_toDigits (n + 1))
    rw [if_neg hsign, String.toList_append, toList_toString_negSucc]
    exact hexponent

/-- Digits that are written with an exponent. -/
theorem unsignedText_scientific (h : Figures (c :: ds)) (hc : c ≠ '0') (e : Int) :
    UnsignedText (Layout.scientific "+" (c :: ds) e).toList := by
  have hwhole : WholeText [c] := .figures hc (h.of_sublist (by simp) (List.cons_ne_nil _ _))
  have hfraction : FractionText ((if (c :: ds).length ≤ 1 then "" else ".").toList ++ ds) := by
    cases ds with
    | nil => exact .none
    | cons d ds =>
      have hlong : ¬ (c :: d :: ds).length ≤ 1 := by simp
      rw [if_neg hlong]
      exact .point (h.of_sublist (List.sublist_cons_self _ _) (List.cons_ne_nil _ _))
  have htext := UnsignedText.mk hwhole hfraction (exponentText_scientific e)
  simpa [Layout.scientific] using htext

/-- Absolute values are written as numbers without a sign. -/
theorem unsignedText_magnitude (x : Binary64) : UnsignedText (Layout.json.magnitude x).toList := by
  unfold Layout.magnitude
  split
  · have hfraction : FractionText ['.', '0'] := .point ⟨List.cons_ne_nil _ _, rfl⟩
    exact .mk .zero hfraction .none
  · next hzero =>
    have hpos := Binary64.shortest_pos (Bool.eq_false_of_not_eq_true hzero) Layout.json.tie
    generalize x.shortest Layout.json.tie = numeral at hpos
    obtain ⟨c, p⟩ := numeral
    obtain ⟨d, ds, heq, hd⟩ := exists_toDigits_of_pos hpos
    have hfigures := figures_toDigits c
    rw [heq] at hfigures
    dsimp only
    rw [heq]
    split
    · exact unsignedText_fixed hfigures hd p
    · exact unsignedText_scientific hfigures hd _

/-- **Finite numbers are written as numbers.** -/
theorem numberText_text {x : Binary64} (hx : x.isFinite = true) :
    NumberText (Layout.json.text x).toList := by
  have hlt : x.magnitude < Binary64.infiniteMagnitude := by simpa [Binary64.isFinite] using hx
  have hnumber : x.isNaN = false := by simp [Binary64.isNaN]; omega
  have hbounded : x.isInfinite = false := by simp [Binary64.isInfinite]; omega
  rw [Layout.text, hnumber, hbounded, if_neg Bool.false_ne_true, if_neg Bool.false_ne_true,
    String.toList_append]
  cases x.negative with
  | false => exact .unsigned (unsignedText_magnitude x)
  | true => exact .minus (unsignedText_magnitude x)

end Stencil.Json
