import Mathlib
import Stencil.Proofs.Number.Digits
import Stencil.Proofs.Pipeline.Alone

/-!
# Integer literals

An integer is written with a sign or none, the mark of a base and digits, with underscores between them.

* `WritesInt` says that a text is such a literal of a number.
* `Numeral.scan_grouped` and `Numeral.token_grouped` say what is read of it.
* `tokenize_int` says which literals are read as their numbers: those of at most 63 bits beside the
  sign, so that the smallest integer of 64 bits has no literal.
-/

namespace Stencil

open Text (isSpace byteSize)

/-! ## Literals -/

/-- The marks of the bases; base ten has none. -/
def baseMarks : List (List Char × Nat) :=
  [([], 10), (['0', 'x'], 16), (['0', 'X'], 16), (['0', 'o'], 8), (['0', 'O'], 8), (['0', 'b'], 2),
    (['0', 'B'], 2)]

/-- The text spells a number in digits of a base, with underscores between them. -/
structure GroupedIn (base : Nat) (s : List Char) (n : Nat) : Prop where
  digits : SpellsIn base (s.filter (· ≠ '_')) n
  head : s.head? ≠ some '_'
  last : s.getLast? ≠ some '_'

/-- The text is a literal of the integer. -/
inductive WritesInt : List Char → Int → Prop
  | intro {sign mark body : List Char} {base n : Nat} (hsign : sign = [] ∨ sign = ['+'] ∨ sign = ['-'])
    (hmark : (mark, base) ∈ baseMarks) (hbody : GroupedIn base body n) :
    WritesInt (sign ++ (mark ++ body)) (if sign = ['-'] then -n else n)

variable {base n : Nat} {body mark : List Char}

theorem le_of_mem_baseMarks (h : (mark, base) ∈ baseMarks) : base = 16 ∨ base ≤ 10 := by
  have hall : ∀ m ∈ baseMarks, m.2 = 16 ∨ m.2 ≤ 10 := by decide
  exact hall _ h

namespace GroupedIn

theorem mem (h : GroupedIn base body n) {c : Char} (hc : c ∈ body) :
    c = '_' ∨ ∃ v < base, IsDigit v c := by
  by_cases hline : c = '_'
  · exact .inl hline
  · obtain ⟨-, vs, hvs, -⟩ := h.digits
    exact .inr (hvs.exists_of_mem (List.mem_filter.2 ⟨hc, decide_eq_true hline⟩))

theorem ne_nil (h : GroupedIn base body n) : body ≠ [] := by
  rintro rfl
  exact h.digits.1 rfl

/-- A mark, or a body without a mark, starts with a figure. -/
theorem head_isDigit (h : GroupedIn base body n) (hmark : (mark, base) ∈ baseMarks) :
    ∃ c t, mark ++ body = c :: t ∧ c.isDigit = true := by
  have hall : ∀ m ∈ baseMarks, if m.1 = [] then m.2 = 10 else m.1.head? = some '0' := by decide
  have hhead := hall _ hmark
  cases mark with
  | nil =>
    obtain rfl : base = 10 := hhead
    obtain ⟨c, t, rfl⟩ := List.exists_cons_of_ne_nil h.ne_nil
    refine ⟨c, t, rfl, ?_⟩
    rcases h.mem List.mem_cons_self with rfl | ⟨v, hv, hdigit⟩
    · exact absurd rfl h.head
    · exact hdigit.isDigit hv
  | cons c mark =>
    obtain rfl : c = '0' := Option.some.inj hhead
    exact ⟨'0', mark ++ body, rfl, rfl⟩

end GroupedIn

/-! ## What is read of them -/

namespace Numeral

theorem continues_of_digitValue? {c : Char} {v : Nat} (h : digitValue? 16 c = some v) (last : Char) :
    continues 16 last c = true := by
  unfold digitValue? at h
  split at h
  · next hfigure =>
    have hdigit : c.isDigit = true := by simpa [Char.isDigit, Char.le_def] using hfigure
    simp [continues, hdigit]
  · split at h
    · next hlower => simp [continues, hlower]
    · split at h
      · next hupper => simp [continues, hupper]
      · cases h

/-- A digit of a base, or an underscore, is part of every body in the base. -/
theorem continues_of_mem (h : GroupedIn base body n) (hbase : base = 16 ∨ base ≤ 10) {c : Char}
    (hc : c ∈ body) (last : Char) : continues base last c = true := by
  rcases h.mem hc with rfl | ⟨v, hv, hdigit⟩
  · simp [continues]
  · rcases hbase with rfl | hbase
    · exact continues_of_digitValue? ((digitValue?_eq_some_iff (Nat.le_refl 16)).2 ⟨hv, hdigit⟩) last
    · simp [continues, hdigit.isDigit (Nat.lt_of_lt_of_le hv hbase)]

theorem scanBody_of_continues (h : ∀ c ∈ body, ∀ last, continues base last c = true) :
    ∀ last, scanBody base last body = body := by
  induction body with
  | nil => exact fun _ => rfl
  | cons c body ih =>
    intro last
    rw [scanBody, if_pos (h c List.mem_cons_self last),
      ih fun d hd => h d (List.mem_cons_of_mem c hd)]

/-- Figures and underscores are no mark. -/
theorem scanMark_of_figures (h : ∀ c ∈ body, c = '_' ∨ c.isDigit = true) :
    scanMark body = ([], 10) := by
  unfold scanMark
  split
  · next c t =>
    have hc : markBase? c = none := by
      rcases h c (by simp) with rfl | hdigit
      · rfl
      · have hne : ∀ d : Char, d.isDigit = false → c ≠ d := fun d => ne_of_class hdigit
        simp [markBase?, hne]
    rw [hc]
  · rfl

/-- **The parts of a literal** are read as they are written. -/
theorem scan_grouped (hmark : (mark, base) ∈ baseMarks) (h : GroupedIn base body n) (sign : List Char) :
    scan sign (mark ++ body) = ⟨sign, mark, base, body⟩ := by
  have hscan : scanMark (mark ++ body) = (mark, base) := by
    simp only [baseMarks, List.mem_cons, Prod.mk.injEq, List.not_mem_nil, or_false] at hmark
    rcases hmark with ⟨rfl, rfl⟩ | ⟨rfl, rfl⟩ | ⟨rfl, rfl⟩ | ⟨rfl, rfl⟩ | ⟨rfl, rfl⟩ | ⟨rfl, rfl⟩ |
      ⟨rfl, rfl⟩
    · refine scanMark_of_figures fun c hc => (h.mem hc).imp_right ?_
      rintro ⟨v, hv, hdigit⟩
      exact hdigit.isDigit hv
    all_goals rfl
  have hbody := scanBody_of_continues fun c hc => continues_of_mem h (le_of_mem_baseMarks hmark) hc
  simp only [scan, hscan, List.drop_left, hbody]

/-- **The value of a literal**, if its digits have at most 63 bits. -/
theorem token_grouped (hbase : base = 16 ∨ base ≤ 10) (h : GroupedIn base body n) (sign : List Char) :
    token ⟨sign, mark, base, body⟩ =
      if n < 2 ^ 63 then .ok (.int (if sign = ['-'] then -n else n))
      else .error (.invalidNumber (String.ofList (sign ++ (mark ++ body)))) := by
  have hvalue : digitsValue? base (body.filter (· ≠ '_')) = some n :=
    (digitsValue?_eq_some_iff (by omega)).2 h.digits
  have hfloat : isFloat ⟨sign, mark, base, body⟩ = false := by
    rcases hbase with rfl | hbase
    · rfl
    · refine Bool.and_eq_false_imp.2 fun _ => List.any_eq_false.2 fun c hc => ?_
      rcases h.mem hc with rfl | ⟨v, hv, hdigit⟩
      · decide
      · have hne : ∀ d : Char, d.isDigit = false → c ≠ d := fun d =>
          ne_of_class (hdigit.isDigit (Nat.lt_of_lt_of_le hv hbase))
        simp [hne]
  simp only [token, hfloat, hvalue, if_neg h.last, Bool.false_eq_true, if_false]
  rfl

end Numeral

/-! ## Statements -/

/-- A literal is taken for one token as a whole. -/
theorem tokenize_grouped {sign : List Char} (hsign : sign = [] ∨ sign = ['+'] ∨ sign = ['-'])
    (hmark : (mark, base) ∈ baseMarks) (h : GroupedIn base body n) :
    tokenize (sign ++ (mark ++ body)) = (Numeral.token ⟨sign, mark, base, body⟩).map fun token =>
      [⟨token, 0, (byteSize (sign ++ (mark ++ body))).toUInt32⟩] := by
  have hscan := Numeral.scan_grouped hmark h
  obtain ⟨c, t, heq, hc⟩ := h.head_isDigit hmark
  have hsigned : ∀ d, d = '-' ∨ d = '+' → isSpace d = false →
      tokenize ([d] ++ (mark ++ body)) = (Numeral.token ⟨[d], mark, base, body⟩).map fun token =>
        [⟨token, 0, (byteSize ([d] ++ (mark ++ body))).toUInt32⟩] := by
    intro d hd hspace
    refine tokenize_of_shown hspace ?_
    have hstarts : Numeral.starts (mark ++ body) = true := by simp [heq, Numeral.starts, hc]
    change (Lexed.read d (mark ++ body)).map Lexed.shown = _
    rw [Lexed.read_signed hd hstarts, Lexed.shown_signed, hscan]
    rfl
  rcases hsign with rfl | rfl | rfl
  · have hspace : isSpace c = false := isSpace_of_isWordPart (isWordPart_iff.2 (.inr hc))
    rw [List.nil_append, heq]
    refine tokenize_of_shown hspace ?_
    rw [read_digit hc, Lexed.shown_unsigned, ← heq, hscan]
    rfl
  · exact hsigned '+' (.inr rfl) rfl
  · exact hsigned '-' (.inl rfl) rfl

/-- **An integer literal is read as its number** exactly if the number without its sign has at most 63
bits; every other literal is refused. -/
theorem tokenize_int {s : List Char} {v : Int} (h : WritesInt s v) :
    tokenize s = (if -2 ^ 63 < v ∧ v < 2 ^ 63 then .ok [⟨.int v, 0, (byteSize s).toUInt32⟩]
      else .error (.invalidNumber (String.ofList s))) ∧
    (Cause.invalidNumber (String.ofList s)).kind = .badSyntax := by
  refine ⟨?_, rfl⟩
  obtain @⟨sign, mark, body, base, n, hsign, hmark, hbody⟩ := h
  rw [tokenize_grouped hsign hmark hbody, Numeral.token_grouped (le_of_mem_baseMarks hmark) hbody]
  have hbits : (-2 ^ 63 < (if sign = ['-'] then -(n : Int) else n) ∧
      (if sign = ['-'] then -(n : Int) else n) < 2 ^ 63) ↔ n < 2 ^ 63 := by
    split <;> omega
  by_cases hn : n < 2 ^ 63
  · rw [if_pos hn, if_pos (hbits.2 hn)]
    rfl
  · rw [if_neg hn, if_neg (mt hbits.1 hn)]
    rfl

/-- Digits in groups, with a sign and a mark. -/
theorem tokenize_int_grouped : WritesInt "-0X7fff_FFFF".toList (-0x7fffffff) ∧
    tokenize "-0X7fff_FFFF".toList = .ok [⟨.int (-0x7fffffff), 0, 12⟩] := by
  have hdigits : SpellsIn 16 ("7fff_FFFF".toList.filter (· ≠ '_')) 0x7fffffff :=
    (digitsValue?_eq_some_iff (by decide)).1 (by decide)
  have h : WritesInt "-0X7fff_FFFF".toList (-0x7fffffff) :=
    @WritesInt.intro ['-'] ['0', 'X'] "7fff_FFFF".toList 16 0x7fffffff (.inr (.inr rfl)) (by decide)
      ⟨hdigits, by decide, by decide⟩
  exact ⟨h, (tokenize_int h).1⟩

/-- **The smallest integer of 64 bits has a literal that is refused.** -/
theorem smallest_int_refused : WritesInt "-9223372036854775808".toList (-2 ^ 63) ∧
    tokenize "-9223372036854775808".toList =
      .error (.invalidNumber "-9223372036854775808") := by
  have hdigits : SpellsIn 10 ("9223372036854775808".toList.filter (· ≠ '_')) (2 ^ 63) :=
    (digitsValue?_eq_some_iff (by decide)).1 (by decide)
  have h : WritesInt "-9223372036854775808".toList (-2 ^ 63) :=
    @WritesInt.intro ['-'] [] "9223372036854775808".toList 10 (2 ^ 63) (.inr (.inr rfl)) (by decide)
      ⟨hdigits, by decide, by decide⟩
  exact ⟨h, by cbv⟩

end Stencil
