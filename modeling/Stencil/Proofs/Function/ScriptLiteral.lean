import Stencil.Function
import Stencil.Proofs.Escape.Characters
import Stencil.Proofs.Pipeline.Escapes
import Stencil.Proofs.Pipeline.Spelling

/-!
# Texts in string literals of scripts

How a script reads the text between the quotes of a string literal, and what it reads of a text that was
escaped for it. The strings of a script consist of code units. A literal may hold every character but its
own quote, the backslash, the line feed and the carriage return. Behind a backslash it may hold a letter for
a control character, a zero, two digits behind `x`, four digits or a code point in braces behind `u`, the
end of a line, which denotes nothing, and any other character but a figure for itself.

* `ScriptLiteral.units?` reads the text between the quotes, and `ScriptLiteral.text?` the characters that
  the units are.
* `ScriptLiteral.units?_jsChar` says how an escaped character is read.
* `ScriptLiteral.Guarded` says that no quote of a text ends the literal that the text stands in.
-/

namespace Stencil

open Text (joinUnits pairChar isHighSurrogate isLowSurrogate Each)

namespace ScriptLiteral

/-! ## The reader -/

/-- The code units of a code point. -/
def pointUnits (n : Nat) : List Nat :=
  if n < 0x10000 then [n] else [0xd800 + (n - 0x10000) / 0x400, 0xdc00 + (n - 0x10000) % 0x400]

/-- The letters behind a backslash and the codes that they denote. -/
def letterCode? : Char → Option Nat
  | 'b' => some 0x08
  | 't' => some 0x09
  | 'n' => some 0x0a
  | 'v' => some 0x0b
  | 'f' => some 0x0c
  | 'r' => some 0x0d
  | _ => none

/-- The characters that end a line. -/
def isLineEnd (c : Char) : Bool :=
  c = '\n' || c = '\r' || c = '\u2028' || c = '\u2029'

/-- The units of an escape behind its backslash, and what is behind the escape. -/
def escape? : List Char → Option (List Nat × List Char)
  | [] => none
  | 'u' :: '\x7b' :: s =>
    match digitsValue? 16 (s.takeWhile (· ≠ '\x7d')), s.dropWhile (· ≠ '\x7d') with
    | some n, _ :: rest => if n < 0x110000 then some (pointUnits n, rest) else none
    | _, _ => none
  | 'u' :: a :: b :: c :: d :: s => (digitsValue? 16 [a, b, c, d]).map fun n => ([n], s)
  | 'x' :: a :: b :: s => (digitsValue? 16 [a, b]).map fun n => ([n], s)
  | '0' :: s => if s.head?.any Char.isDigit then none else some ([0], s)
  | '\r' :: '\n' :: s => some ([], s)
  | c :: s =>
    if isLineEnd c then some ([], s)
    else if c.isDigit || c = 'u' || c = 'x' then none
    else some ((letterCode? c).elim (codeUnits c) ([·]), s)

/-- The units of the first character or escape, and what is behind it. -/
def next? (quote : Char) : List Char → Option (List Nat × List Char)
  | [] => none
  | c :: s =>
    if c = '\\' then escape? s
    else if c = quote || c = '\n' || c = '\r' then none
    else some (codeUnits c, s)

theorem escape?_length_lt {s rest : List Char} {ns : List Nat} (h : escape? s = some (ns, rest)) :
    rest.length < s.length := by
  unfold escape? at h
  split at h
  · cases h
  · next s =>
    have hlength := (List.dropWhile_sublist (fun c => decide (c ≠ '\x7d')) (l := s)).length_le
    split at h
    · next hrest =>
      rw [hrest, List.length_cons] at hlength
      split at h
      · cases h
        simp only [List.length_cons]
        omega
      · cases h
    · cases h
  all_goals grind [List.length_cons, Option.map_eq_some_iff]

theorem next?_length_le {quote c : Char} {s rest : List Char} {ns : List Nat}
    (h : next? quote (c :: s) = some (ns, rest)) : rest.length ≤ s.length := by
  rw [next?] at h
  split_ifs at h
  · exact Nat.le_of_lt (escape?_length_lt h)
  · cases h
    exact Nat.le_refl _

/-- The units of the text between the quotes. -/
def units? (quote : Char) : List Char → Option (List Nat)
  | [] => some []
  | c :: s =>
    match h : next? quote (c :: s) with
    | some (ns, rest) =>
      have := next?_length_le h
      (units? quote rest).map (ns ++ ·)
    | none => none
  termination_by s => s.length

/-- The characters of the text between the quotes. -/
def text? (quote : Char) (s : List Char) : Option (List Char) := do
  let ns ← units? quote s
  joinUnits (ns.map .unit)

variable {quote c : Char} {s t ds rest : List Char} {n : Nat} {ns : List Nat}

/-! ## One step -/

theorem units?_of_next? (h : next? quote s = some (ns, rest)) :
    units? quote s = (units? quote rest).map (ns ++ ·) := by
  cases s with
  | nil => cases h
  | cons c s =>
    rw [units?]
    split
    · next heq =>
      rw [h] at heq
      cases heq
      rfl
    · next heq =>
      rw [h] at heq
      cases heq

theorem next?_char (hquote : c ≠ quote) (hbackslash : c ≠ '\\') (hcontrol : 0x20 ≤ c.toNat)
    (s : List Char) : next? quote (c :: s) = some (codeUnits c, s) := by
  have hline : c ≠ '\n' ∧ c ≠ '\r' := by
    constructor <;> (rintro rfl; revert hcontrol; decide)
  simp [next?, hquote, hbackslash, hline]

theorem next?_self (hc : c = '\\' ∨ c = '\'' ∨ c = '"') (s : List Char) :
    next? quote ('\\' :: c :: s) = some (codeUnits c, s) := by
  rcases hc with rfl | rfl | rfl <;> rfl

theorem next?_unit (h : FourDigits ds n) (s : List Char) :
    next? quote ('\\' :: 'u' :: (ds ++ s)) = some ([n], s) := by
  obtain ⟨a, b, c, d, rfl⟩ := List.length_eq_four.1 h.1
  have hbrace : a ≠ '\x7b' := by
    rintro rfl
    cases h.2.isAlphanum (Nat.le_refl 16) List.mem_cons_self
  change escape? ('u' :: a :: b :: c :: d :: s) = _
  rw [escape?, (digitsValue?_eq_some_iff (by decide)).2 h.2]
  · rfl
  · exact hbrace

/-! ## Escaped characters -/

/-- The escape of a character by its code. -/
theorem exists_unitEscape (hc : c.toNat < 0x40) :
    ∃ ds, Function.unitEscape c = '\\' :: 'u' :: ds ∧ FourDigits ds c.toNat := by
  have hall : ∀ n < 0x40, let ds := (Function.unitEscape (Char.ofNat n)).drop 2
      Function.unitEscape (Char.ofNat n) = '\\' :: 'u' :: ds ∧ ds.length = 4 ∧
        digitsValue? 16 ds = some n := by
    decide +kernel
  obtain ⟨heq, hlength, hvalue⟩ := hall c.toNat hc
  rw [Char.ofNat_toNat] at heq hlength hvalue
  exact ⟨_, heq, fourDigits_of_value hlength hvalue⟩

/-- The ways in which a character is escaped. -/
theorem jsChar_cases (c : Char) :
    ((c = '\\' ∨ c = '\'' ∨ c = '"') ∧ Function.jsChar c = ['\\', c]) ∨
    (∃ ds, Function.jsChar c = '\\' :: 'u' :: ds ∧ FourDigits ds c.toNat) ∨
    (Function.jsChar c = [c] ∧ c ∉ ['\\', '\'', '"', '<', '>', '&', '='] ∧ 0x20 ≤ c.toNat) := by
  unfold Function.jsChar
  split
  · next h => exact .inl ⟨by simpa [or_assoc] using h, rfl⟩
  · next hself =>
    split
    · next h =>
      refine .inr (.inl (exists_unitEscape ?_))
      simp only [Bool.or_eq_true, decide_eq_true_eq] at h
      rcases h with (((rfl | rfl) | rfl) | rfl) | h
      · decide
      · decide
      · decide
      · decide
      · omega
    · next h =>
      simp only [Bool.or_eq_true, decide_eq_true_eq, not_or] at hself h
      exact .inr (.inr ⟨rfl, by simp [hself, h], by omega⟩)

/-- **An escaped character is read as the character**, between quotes of either kind. -/
theorem units?_jsChar (hquote : quote = '\'' ∨ quote = '"') (c : Char) (s : List Char) :
    units? quote (Function.jsChar c ++ s) = (units? quote s).map (codeUnits c ++ ·) := by
  refine units?_of_next? ?_
  rcases jsChar_cases c with ⟨hc, heq⟩ | ⟨ds, heq, hds⟩ | ⟨heq, hc, hcontrol⟩
  · rw [heq]
    exact next?_self hc s
  · have hsmall : c.toNat < 0x10000 := (UnitCode.length_lt (.inl hds)).2
    rw [heq, codeUnits, if_pos hsmall]
    exact next?_unit hds s
  · simp only [List.mem_cons, List.not_mem_nil, or_false, not_or] at hc
    rw [heq]
    refine next?_char ?_ hc.1 hcontrol s
    rcases hquote with rfl | rfl
    · exact hc.2.1
    · exact hc.2.2.1

theorem units?_escaped (hquote : quote = '\'' ∨ quote = '"') (s : List Char) :
    units? quote (s.flatMap Function.jsChar) = some (s.flatMap codeUnits) := by
  induction s with
  | nil => rw [List.flatMap_nil, units?, List.flatMap_nil]
  | cons c s ih => rw [List.flatMap_cons, units?_jsChar hquote, ih]; rfl

/-- The code units of a text are joined to the text. -/
theorem joinUnits_codeUnits (s : List Char) :
    joinUnits ((s.flatMap codeUnits).map .unit) = some s := by
  induction s with
  | nil => rfl
  | cons c s ih =>
    have hvalid : c.toNat < 0xd800 ∨ 0xdfff < c.toNat ∧ c.toNat < 0x110000 := c.valid
    rw [List.flatMap_cons, List.map_append, codeUnits]
    split
    · rw [List.map_singleton, List.singleton_append, joinUnits_unit, ih]
      rfl
    · -- the two surrogates are joined to the character
      let high := 0xd800 + (c.toNat - 0x10000) / 0x400
      let low := 0xdc00 + (c.toNat - 0x10000) % 0x400
      have hhigh : 0xd800 ≤ high ∧ high < 0xdc00 := by omega
      have hlow : 0xdc00 ≤ low ∧ low < 0xe000 := by omega
      have hpair : pairChar high low = c := (pairChar_eq_iff hhigh hlow).2 (by omega)
      change joinUnits (.unit high :: .unit low :: (s.flatMap codeUnits).map .unit) = _
      rw [joinUnits, if_pos (by simpa [isHighSurrogate] using hhigh),
        if_pos (by simpa [isLowSurrogate] using hlow), hpair, ih]
      rfl

/-- **Escaped text is read as what it was**, between quotes of either kind. -/
theorem text?_escaped (hquote : quote = '\'' ∨ quote = '"') (s : List Char) :
    text? quote (s.flatMap Function.jsChar) = some s := by
  rw [text?, units?_escaped hquote]
  exact joinUnits_codeUnits s

/-! ## Quotes -/

/-- The number of backslashes that a text ends with. -/
def trailing (t : List Char) : Nat := (t.reverse.takeWhile (· = '\\')).length

theorem trailing_concat (t : List Char) (c : Char) :
    trailing (t ++ [c]) = if c = '\\' then trailing t + 1 else 0 := by
  unfold trailing
  rw [List.reverse_concat, List.takeWhile_cons]
  split <;> simp_all

/-- Every quote of the text has a backslash of its own, and so would a quote behind the text. -/
structure Guarded (t : List Char) : Prop where
  quotes : ∀ u c, u ++ [c] <+: t → c = '\'' ∨ c = '"' → Odd (trailing u)
  last : Even (trailing t)

theorem guarded_nil : Guarded [] where
  quotes u c h := by simp at h
  last := ⟨0, rfl⟩

/-- A character that is neither a quote nor a backslash. -/
theorem Guarded.concat (h : Guarded t) (hc : c ∉ ['\\', '\'', '"']) : Guarded (t ++ [c]) := by
  simp only [List.mem_cons, List.not_mem_nil, or_false, not_or] at hc
  refine ⟨fun u d hprefix hd => ?_, by simp [trailing_concat, hc.1]⟩
  rcases List.prefix_concat_iff.1 hprefix with heq | hprefix
  · obtain ⟨-, hcd⟩ := List.append_inj' heq rfl
    cases hcd
    rcases hd with rfl | rfl
    · exact absurd rfl hc.2.1
    · exact absurd rfl hc.2.2
  · exact h.quotes u d hprefix hd

/-- A character with a backslash. -/
theorem Guarded.concat_escaped (h : Guarded t) (c : Char) : Guarded (t ++ ['\\', c]) := by
  have hbackslash : trailing (t ++ ['\\']) = trailing t + 1 := by simp [trailing_concat]
  have heq : t ++ ['\\', c] = t ++ ['\\'] ++ [c] := by simp
  rw [heq]
  constructor
  · intro u d hprefix hd
    rcases List.prefix_concat_iff.1 hprefix with heq | hprefix
    · obtain ⟨rfl, -⟩ := List.append_inj' heq rfl
      rw [hbackslash]
      exact h.last.add_one
    · rcases List.prefix_concat_iff.1 hprefix with heq | hprefix
      · obtain ⟨-, hcd⟩ := List.append_inj' heq rfl
        cases hcd
        rcases hd with hd | hd <;> cases hd
      · exact h.quotes u d hprefix hd
  · rw [trailing_concat, hbackslash]
    split
    · exact h.last.add_one.add_one
    · exact ⟨0, rfl⟩

theorem Guarded.append (h : Guarded t) (hs : ∀ c ∈ s, c ∉ ['\\', '\'', '"']) : Guarded (t ++ s) := by
  induction s generalizing t with
  | nil => rwa [List.append_nil]
  | cons c s ih =>
    rw [List.forall_mem_cons] at hs
    rw [List.append_cons]
    exact ih (h.concat hs.1) hs.2

theorem Guarded.append_jsChar (h : Guarded t) (c : Char) : Guarded (t ++ Function.jsChar c) := by
  rcases jsChar_cases c with ⟨-, heq⟩ | ⟨ds, heq, hds⟩ | ⟨heq, hc, -⟩
  · rw [heq]
    exact h.concat_escaped c
  · have happend : t ++ '\\' :: 'u' :: ds = t ++ ['\\', 'u'] ++ ds := by simp
    rw [heq, happend]
    refine (h.concat_escaped 'u').append fun d hd hmem => ?_
    have halphanum := hds.2.isAlphanum (Nat.le_refl 16) hd
    simp only [List.mem_cons, List.not_mem_nil, or_false] at hmem
    rcases hmem with rfl | rfl | rfl <;> cases halphanum
  · rw [heq]
    exact h.concat fun hmem => hc (List.mem_append_left ['<', '>', '&', '='] hmem)

/-- **No quote of an escaped text ends its literal.** -/
theorem guarded_escaped (s : List Char) : Guarded (s.flatMap Function.jsChar) := by
  -- from the front, since a quote is guarded by what stands before it
  induction s using List.reverseRecOn with
  | nil => exact guarded_nil
  | append_singleton s c ih =>
    rw [List.flatMap_append, List.flatMap_singleton]
    exact ih.append_jsChar c

/-- **Escaped text has no characters of markup and no control characters.** -/
theorem each_escaped (s : List Char) :
    Each (fun c => c ∉ ['<', '>', '&', '='] ∧ 0x20 ≤ c.toNat)
      (String.ofList (s.flatMap Function.jsChar)) := by
  refine Text.each_flatMap fun c d hd => ?_
  rcases jsChar_cases c with ⟨hc, heq⟩ | ⟨ds, heq, hds⟩ | ⟨heq, hc, hcontrol⟩
  · rw [heq, List.mem_cons, List.mem_singleton] at hd
    rcases hd with rfl | rfl
    · decide
    · rcases hc with rfl | rfl | rfl <;> decide
  · rw [heq, List.mem_cons, List.mem_cons] at hd
    rcases hd with rfl | rfl | hd
    · decide
    · decide
    · have halphanum := hds.2.isAlphanum (Nat.le_refl 16) hd
      refine ⟨fun hmem => ?_, ?_⟩
      · simp only [List.mem_cons, List.not_mem_nil, or_false] at hmem
        rcases hmem with rfl | rfl | rfl | rfl <;> cases halphanum
      · have hpart : Lexed.isWordPart d = true := by simp [Lexed.isWordPart, halphanum]
        rw [isWordPart_iff, isWordStart_iff, isDigit_iff] at hpart
        omega
  · rw [heq, List.mem_singleton] at hd
    subst hd
    exact ⟨fun hmem => hc (List.mem_append_right ['\\', '\'', '"'] hmem), hcontrol⟩

end ScriptLiteral

end Stencil
