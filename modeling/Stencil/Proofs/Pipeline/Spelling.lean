import Stencil.Pipeline.Printer
import Stencil.Proofs.Pipeline.Reading

/-!
# Tokens and how they are spelled

A token that is written as in a canonical text is read back, if what is behind it cannot be taken for
a part of it.

* `Spells token spelling rest` says that the text `spelling` is read as the token when `rest` is behind
  it, and `Reads.spelled` puts such a token in front of others.
* `spells_word`, `spells_field`, `spells_variable`, `spells_dot`, `spells_int` and `spells_text` are the
  tokens with a text of their own; the signs are read by evaluation.
* `Lexed.rule` says by which rule the token at the first character of a text is read.
-/

namespace Stencil

open Text (isSpace)
open Lexed (isWordStart isWordPart word)

/-- The text `spelling` is read as the token when `rest` is behind it. -/
def Spells (token : Token) (spelling rest : List Char) : Prop :=
  ∃ c s, ∃ l : Lexed (c :: s), spelling ++ rest = c :: s ∧ isSpace c = false ∧
    Lexed.read c s = .ok l ∧ l.token = token ∧ l.rest = rest

theorem Reads.spelled {token : Token} {spelling rest : List Char} (h : Spells token spelling rest)
    {ts : List Glued} (hrest : Reads (some 0) rest ts) (gap : Option UInt32) :
    Reads gap (spelling ++ rest) (⟨token, gap = some 0⟩ :: ts) := by
  obtain ⟨c, s, l, heq, hc, hl, rfl, rfl⟩ := h
  rw [heq]
  exact .token l hc hl hrest

/-! ## Characters -/

theorem isDigit_iff {c : Char} : c.isDigit = true ↔ 48 ≤ c.toNat ∧ c.toNat ≤ 57 := by
  have htoNat : c.toNat = c.val.toNat := rfl
  simp only [Char.isDigit, Bool.and_eq_true, decide_eq_true_eq, ge_iff_le, UInt32.le_iff_toNat_le,
    htoNat]
  exact Iff.rfl

theorem isWordStart_iff {c : Char} : isWordStart c = true ↔
    (65 ≤ c.toNat ∧ c.toNat ≤ 90) ∨ (97 ≤ c.toNat ∧ c.toNat ≤ 122) ∨ c.toNat = 95 := by
  have htoNat : c.toNat = c.val.toNat := rfl
  have hunderscore : c = '_' ↔ c.toNat = 95 :=
    ⟨fun h => by rw [h]; rfl, fun h => Char.toNat_inj.1 (h.trans rfl)⟩
  have halpha : c.isAlpha = (decide (c.val ≥ 65 ∧ c.val ≤ 90) ||
      (decide (c.val ≥ 97) && decide (c.val ≤ 122))) := rfl
  simp only [isWordStart, halpha, Bool.or_eq_true, Bool.and_eq_true, decide_eq_true_eq, ge_iff_le,
    UInt32.le_iff_toNat_le, hunderscore, htoNat, or_assoc]
  exact Iff.rfl

theorem isWordPart_iff {c : Char} :
    isWordPart c = true ↔ isWordStart c = true ∨ c.isDigit = true := by
  simp only [isWordPart, isWordStart, Char.isAlphanum, Bool.or_eq_true]
  exact or_right_comm

theorem isDigit_of_isWordStart {c : Char} (h : isWordStart c = true) : c.isDigit = false := by
  rw [isWordStart_iff] at h
  rw [← Bool.not_eq_true, isDigit_iff]
  omega

theorem isSpace_of_isWordPart {c : Char} (h : isWordPart c = true) : isSpace c = false := by
  rw [isWordPart_iff, isWordStart_iff, isDigit_iff] at h
  simp only [isSpace]
  simp
  omega

/-- A character of a class is none outside of it. -/
theorem ne_of_class {p : Char → Bool} {c d : Char} (hc : p c = true) (hd : p d = false) : c ≠ d := by
  rintro rfl
  rw [hc] at hd
  cases hd

/-! ## What is behind a token -/

/-- The text does not go on with a part of a word. -/
def EndsWord (rest : List Char) : Prop := ∀ c ∈ rest.head?, isWordPart c = false

/-- The text is at its end or goes on with a space or a closing parenthesis. -/
def EndsOperand (rest : List Char) : Prop := ∀ c ∈ rest.head?, c = ' ' ∨ c = ')'

theorem EndsOperand.endsWord {rest : List Char} (h : EndsOperand rest) : EndsWord rest := by
  intro c hc
  rcases h c hc with rfl | rfl <;> rfl

theorem endsOperand_nil : EndsOperand [] := fun c hc => by cases hc

theorem endsOperand_space (s : List Char) : EndsOperand (' ' :: s) :=
  fun c hc => by cases hc; exact .inl rfl

theorem endsOperand_paren (s : List Char) : EndsOperand (')' :: s) :=
  fun c hc => by cases hc; exact .inr rfl

theorem endsWord_cons {c : Char} (hc : isWordPart c = false) (s : List Char) : EndsWord (c :: s) :=
  fun d hd => by cases hd; exact hc

/-! ## Words -/

theorem takeWhile_append_of_stops {p : Char → Bool} {s rest : List Char} (hs : s.all p = true)
    (hrest : ∀ c ∈ rest.head?, p c = false) : (s ++ rest).takeWhile p = s := by
  rw [List.takeWhile_append_of_pos (List.all_eq_true.1 hs)]
  cases rest with
  | nil => simp
  | cons c rest => simp [hrest c rfl]

theorem dropWhile_append_of_stops {p : Char → Bool} {s rest : List Char} (hs : s.all p = true)
    (hrest : ∀ c ∈ rest.head?, p c = false) : (s ++ rest).dropWhile p = rest := by
  rw [List.dropWhile_append_of_pos (List.all_eq_true.1 hs)]
  cases rest with
  | nil => rfl
  | cons c rest => simp [hrest c rfl]

theorem exists_of_isIdentifier {name : String} (h : isIdentifier name = true) :
    ∃ c s, name.toList = c :: s ∧ isWordStart c = true ∧ s.all isWordPart = true := by
  unfold isIdentifier at h
  split at h
  · cases h
  · next c s heq =>
    rw [Bool.and_eq_true] at h
    exact ⟨c, s, heq, h.1, h.2⟩

/-- An identifier is read up to its end. -/
theorem word_append {name : String} (h : isIdentifier name = true) {rest : List Char}
    (hrest : EndsWord rest) : word (name.toList ++ rest) = name.toList := by
  obtain ⟨c, s, heq, hc, hs⟩ := exists_of_isIdentifier h
  rw [heq, List.cons_append, word, if_pos hc, takeWhile_append_of_stops hs hrest]

/-- The empty name of a variable, or an identifier, is read up to its end. -/
theorem word_append_of_isVariableName {name : String} (h : Expr.isVariableName name = true)
    {rest : List Char} (hrest : EndsWord rest) : word (name.toList ++ rest) = name.toList := by
  unfold Expr.isVariableName at h
  rcases Bool.or_eq_true _ _ ▸ h with hempty | h
  · obtain rfl := of_decide_eq_true hempty
    cases rest with
    | nil => rfl
    | cons c rest =>
      have hc : isWordPart c = false := hrest c rfl
      have hstart : isWordStart c = false := by
        rw [← Bool.not_eq_true, isWordPart_iff] at hc
        simpa using fun h => hc (.inl h)
      simp [word, hstart]
  · exact word_append h hrest

/-- A character that begins a word is none of the signs and no digit. -/
theorem read_wordStart {c : Char} (hc : isWordStart c = true) (s : List Char) :
    Lexed.read c s =
      .ok (.ofPrefix (.word (String.ofList (word (c :: s)))) (word (c :: s)) (Lexed.word_isPrefix _)
        (by simp [word, hc])) := by
  have hne : ∀ d : Char, isWordStart d = false → c ≠ d := fun d => ne_of_class hc
  have hdigit := isDigit_of_isWordStart hc
  unfold Lexed.read
  rw [if_neg (hne '|' rfl), if_neg (hne ',' rfl), if_neg (hne '(' rfl), if_neg (hne ')' rfl),
    if_neg (hne ':' rfl), if_neg (hne '=' rfl), dif_neg (hne '.' rfl), if_neg (hne '$' rfl),
    dif_neg (hne '"' rfl), if_neg (hne Lexed.rawMark rfl), dif_neg (by simp [hdigit]),
    if_neg (by simp [hne '-' rfl, hne '+' rfl]), dif_pos hc]
  rfl

theorem spells_word {name : String} (h : isIdentifier name = true) {rest : List Char}
    (hrest : EndsWord rest) : Spells (.word name) name.toList rest := by
  have hword := word_append h hrest
  obtain ⟨c, s, heq, hc, -⟩ := exists_of_isIdentifier h
  rw [heq, List.cons_append] at hword
  refine ⟨c, s ++ rest, _, by rw [heq]; rfl, isSpace_of_isWordPart (isWordPart_iff.2 (.inl hc)),
    read_wordStart hc _, ?_, ?_⟩
  · simp [Lexed.ofPrefix, hword, ← heq]
  · simp [Lexed.ofPrefix, hword]

/-! ## Fields and variables -/

theorem spells_field {name : String} (h : isIdentifier name = true) {rest : List Char}
    (hrest : EndsWord rest) : Spells (.field name) ('.' :: name.toList) rest := by
  have hword := word_append h hrest
  obtain ⟨c, s, heq, hc, -⟩ := exists_of_isIdentifier h
  have hdigit := isDigit_of_isWordStart hc
  have hread : Lexed.read '.' (name.toList ++ rest) =
      .ok (Lexed.marked .field '.' (name.toList ++ rest)) := by
    unfold Lexed.read Lexed.dotted
    rw [hword]
    simp [heq, hdigit]
    rfl
  refine ⟨'.', name.toList ++ rest, _, rfl, rfl, hread, ?_, ?_⟩
  · simp [Lexed.marked, Lexed.ofPrefix, hword]
  · simp [Lexed.marked, Lexed.ofPrefix, hword]

theorem spells_dot {rest : List Char} (hrest : EndsWord rest) : Spells .dot ['.'] rest := by
  have hempty : Expr.isVariableName "" = true := rfl
  have hword : word rest = [] := word_append_of_isVariableName hempty hrest
  have hdigit : (rest.head?.map Char.isDigit).getD false = false := by
    cases rest with
    | nil => rfl
    | cons c rest =>
      have hc : isWordPart c = false := hrest c rfl
      rw [← Bool.not_eq_true, isWordPart_iff] at hc
      simpa using fun h => hc (.inr h)
  have hread : Lexed.read '.' rest = .ok (Lexed.single .dot '.' rest) := by
    unfold Lexed.read Lexed.dotted
    simp [hdigit, hword]
    rfl
  exact ⟨'.', rest, _, rfl, rfl, hread, rfl, rfl⟩

theorem spells_variable {name : String} (h : Expr.isVariableName name = true) {rest : List Char}
    (hrest : EndsWord rest) : Spells (.variable name) ('$' :: name.toList) rest := by
  have hword := word_append_of_isVariableName h hrest
  refine ⟨'$', name.toList ++ rest, _, rfl, rfl, rfl, ?_, ?_⟩
  · simp [Lexed.marked, Lexed.ofPrefix, hword]
  · simp [Lexed.marked, Lexed.ofPrefix, hword]

/-! ## Integers -/

/-- A character that begins with a digit begins a number. -/
theorem read_digit {c : Char} (hc : c.isDigit = true) (s : List Char) :
    Lexed.read c s = Lexed.unsigned c s (by simp [Numeral.starts, hc]) := by
  have hne : ∀ d : Char, d.isDigit = false → c ≠ d := fun d => ne_of_class hc
  unfold Lexed.read
  rw [if_neg (hne '|' rfl), if_neg (hne ',' rfl), if_neg (hne '(' rfl), if_neg (hne ')' rfl),
    if_neg (hne ':' rfl), if_neg (hne '=' rfl), dif_neg (hne '.' rfl), if_neg (hne '$' rfl),
    dif_neg (hne '"' rfl), if_neg (hne Lexed.rawMark rfl), dif_pos hc]

namespace Numeral

theorem scanMark_of_digits {ds rest : List Char} (hds : ds.all Char.isDigit = true)
    (hrest : EndsOperand rest) : scanMark (ds ++ rest) = ([], 10) := by
  unfold scanMark
  split
  · next c t heq =>
    have hc : markBase? c = none := by
      have hsecond : c.isDigit = true ∨ c = ' ' ∨ c = ')' := by
        match ds with
        | [] =>
          have hzero := hrest '0' (by simp_all)
          simp at hzero
        | [d] =>
          obtain ⟨rfl, rfl⟩ : d = '0' ∧ rest = c :: t := by simpa using heq
          exact .inr (hrest c rfl)
        | d :: d' :: ds => grind
      rcases hsecond with hdigit | rfl | rfl
      · unfold markBase?
        have hne : ∀ d : Char, d.isDigit = false → c ≠ d := fun d => ne_of_class hdigit
        simp [hne]
      · rfl
      · rfl
    rw [hc]
  · rfl

theorem scanBody_of_digits {ds rest : List Char} (hds : ds.all Char.isDigit = true)
    (hrest : EndsOperand rest) (last : Char) : scanBody 10 last (ds ++ rest) = ds := by
  induction ds generalizing last with
  | nil =>
    cases rest with
    | nil => rfl
    | cons c rest =>
      have hc : continues 10 last c = false := by
        rcases hrest c rfl with rfl | rfl <;> simp [continues]
      simp [scanBody, hc]
  | cons d ds ih =>
    rw [List.all_cons, Bool.and_eq_true] at hds
    have hd : continues 10 last d = true := by simp [continues, hds.1]
    simp [scanBody, hd, ih hds.2]

/-- The number of a text of decimal digits. -/
theorem scan_of_digits {ds rest : List Char} (hds : ds.all Char.isDigit = true)
    (hrest : EndsOperand rest) (sign : List Char) :
    scan sign (ds ++ rest) = { sign, mark := [], base := 10, body := ds } := by
  simp [scan, scanMark_of_digits hds hrest, scanBody_of_digits hds hrest]

theorem digitsFrom_of_digits {ds : List Char} (hds : ds.all Char.isDigit = true) (done : Nat) :
    digitsFrom 10 done ds = some (Nat.ofDigitChars 10 ds done) := by
  induction ds generalizing done with
  | nil => rfl
  | cons d ds ih =>
    rw [List.all_cons, Bool.and_eq_true] at hds
    have hd : digitValue? 10 d = some (d.toNat - '0'.toNat) := by
      have hle : ('0' ≤ d && d ≤ '9') = true := by
        simpa [Char.isDigit, Char.le_def] using hds.1
      have hlt : d.toNat - '0'.toNat < 10 := by
        have hdigit := isDigit_iff.1 hds.1
        have hzero : '0'.toNat = 48 := rfl
        omega
      simp only [digitValue?, hle, if_true, hlt]
    rw [digitsFrom, hd, Nat.ofDigitChars_cons, Nat.mul_comm 10]
    exact ih hds.2 _

/-- The value of a number of decimal digits. -/
theorem token_of_digits {n : Nat} (hn : n < 0x8000000000000000) (sign : List Char) :
    token { sign, mark := [], base := 10, body := Nat.toDigits 10 n } =
      .ok (.int (if sign = ['-'] then -(n : Int) else n)) := by
  have hdigit : ∀ c ∈ Nat.toDigits 10 n, c.isDigit = true :=
    fun c hc => Nat.isDigit_of_mem_toDigits (by omega) (by omega) hc
  have hne : ∀ c ∈ Nat.toDigits 10 n, ∀ d : Char, d.isDigit = false → c ≠ d :=
    fun c hc d => ne_of_class (hdigit c hc)
  have hlast : (Nat.toDigits 10 n).getLast? ≠ some '_' :=
    fun h => hne '_' (List.mem_of_getLast? h) '_' rfl rfl
  have hfilter : (Nat.toDigits 10 n).filter (fun c => c ≠ '_') = Nat.toDigits 10 n :=
    List.filter_eq_self.2 fun c hc => by simpa using hne c hc '_' rfl
  have hfloat : ((Nat.toDigits 10 n).any fun c => c = '.' || c = 'e' || c = 'E') = false := by
    rw [List.any_eq_false]
    intro c hc
    simp [hne c hc '.' rfl, hne c hc 'e' rfl, hne c hc 'E' rfl]
  have hvalue : digitsValue? 10 (Nat.toDigits 10 n) = some n := by
    have hds : (Nat.toDigits 10 n).all Char.isDigit = true := List.all_eq_true.2 hdigit
    rw [digitsValue?, if_neg (by simp [Nat.toDigits_ne_nil]), digitsFrom_of_digits hds,
      Nat.ofDigitChars_toDigits (by omega) (by omega)]
  simp only [token, isFloat, hlast, hfilter, hfloat, hvalue, hn, if_true, Bool.and_false]
  rfl

end Numeral

/-- The decimal digits of a number begin with a digit. -/
theorem exists_toDigits_eq_cons (n : Nat) :
    (Nat.toDigits 10 n).all Char.isDigit = true ∧
      ∃ c s, Nat.toDigits 10 n = c :: s ∧ c.isDigit = true := by
  have hdigits : ∀ c ∈ Nat.toDigits 10 n, c.isDigit = true :=
    fun c hc => Nat.isDigit_of_mem_toDigits (by omega) (by omega) hc
  refine ⟨List.all_eq_true.2 hdigits, ?_⟩
  cases hds : Nat.toDigits 10 n with
  | nil => exact absurd hds Nat.toDigits_ne_nil
  | cons c s => exact ⟨c, s, rfl, hdigits c (by simp [hds])⟩

theorem spells_digits {n : Nat} (hn : n < 0x8000000000000000) {rest : List Char}
    (hrest : EndsOperand rest) : Spells (.int n) (Nat.toDigits 10 n) rest := by
  obtain ⟨hdigits, c, s, hds, hc⟩ := exists_toDigits_eq_cons n
  have hscan := Numeral.scan_of_digits hdigits hrest []
  have htoken := Numeral.token_of_digits hn []
  have hread := read_digit hc (s ++ rest)
  rw [hds] at htoken
  rw [hds, List.cons_append] at hscan
  unfold Lexed.unsigned at hread
  simp only [hscan, htoken, bind, Except.bind, pure, Except.pure] at hread
  refine ⟨c, s ++ rest, _, by rw [hds]; rfl, ?_, hread, rfl, ?_⟩
  · exact isSpace_of_isWordPart (isWordPart_iff.2 (.inr hc))
  · simp [Lexed.ofPrefix, Numeral.spelling]

theorem spells_minus {n : Nat} (hn : n < 0x8000000000000000) {rest : List Char}
    (hrest : EndsOperand rest) : Spells (.int (-n)) ('-' :: Nat.toDigits 10 n) rest := by
  obtain ⟨hdigits, c, s, hds, hc⟩ := exists_toDigits_eq_cons n
  have hscan := Numeral.scan_of_digits hdigits hrest ['-']
  have htoken := Numeral.token_of_digits hn ['-']
  have hstarts : Numeral.starts (Nat.toDigits 10 n ++ rest) = true := by
    rw [hds]
    simp [Numeral.starts, hc]
  have hread : Lexed.read '-' (Nat.toDigits 10 n ++ rest) =
      Lexed.signed '-' (Nat.toDigits 10 n ++ rest) := by
    unfold Lexed.read
    simp [hstarts]
    exact fun h => by cases h
  unfold Lexed.signed at hread
  simp only [hscan, htoken, bind, Except.bind, pure, Except.pure] at hread
  exact ⟨'-', _, _, rfl, rfl, hread, rfl, by simp [Lexed.ofPrefix, Numeral.spelling]⟩

theorem toList_toString_ofNat (m : Nat) : (toString (Int.ofNat m)).toList = Nat.toDigits 10 m := by
  change (toString m).toList = _
  rw [Nat.toString_eq_ofList_toDigits, String.toList_ofList]

theorem toList_toString_negSucc (m : Nat) :
    (toString (Int.negSucc m)).toList = '-' :: Nat.toDigits 10 (m + 1) := by
  change ("-" ++ toString (m + 1)).toList = _
  rw [String.toList_append, Nat.toString_eq_ofList_toDigits, String.toList_ofList]
  simp

theorem spells_int {n : Int} (hn : n.natAbs < 0x8000000000000000) {rest : List Char}
    (hrest : EndsOperand rest) : Spells (.int n) (toString n).toList rest := by
  cases n with
  | ofNat m =>
    rw [toList_toString_ofNat]
    exact spells_digits hn hrest
  | negSucc m =>
    rw [toList_toString_negSucc]
    exact spells_minus hn hrest

/-! ## Strings -/

/-- A character of a literal is escaped, or stands for itself and is no special one. -/
theorem literalChar_cases (c : Char) :
    (∃ e, Value.literalChar c = ['\\', e] ∧ escaped? e = some c ∧ e ≠ 'u') ∨
      (Value.literalChar c = [c] ∧ c ≠ '"' ∧ c ≠ '\\' ∧ c ≠ '\n') := by
  unfold Value.literalChar
  split
  · next h => exact .inl ⟨'"', rfl, by rw [h]; rfl, by decide⟩
  · split
    · next h => exact .inl ⟨'\\', rfl, by rw [h]; rfl, by decide⟩
    · split
      · next h => exact .inl ⟨'n', rfl, by rw [h]; rfl, by decide⟩
      · next hquote hslash hfeed => exact .inr ⟨rfl, hquote, hslash, hfeed⟩

/-- The body of a literal ends at its closing quote. -/
theorem quotedBody?_literal (s rest : List Char) :
    quotedBody? (s.flatMap Value.literalChar ++ '"' :: rest) =
      some (s.flatMap Value.literalChar) := by
  induction s with
  | nil => rfl
  | cons c s ih =>
    rw [List.flatMap_cons, List.append_assoc]
    rcases literalChar_cases c with ⟨e, hc, -, -⟩ | ⟨hc, hquote, hslash, hfeed⟩
    · rw [hc, List.cons_append, List.singleton_append, quotedBody?, ih]
      rfl
    · rw [hc, List.singleton_append, quotedBody?, ih]
      · rfl
      · exact hquote
      · exact hfeed
      · exact fun d t h => absurd h hslash

/-- The body of a literal denotes the text. -/
theorem pieces?_literal (s : List Char) :
    pieces? (s.flatMap Value.literalChar) = some (s.map .char) := by
  induction s with
  | nil => rfl
  | cons c s ih =>
    rw [List.flatMap_cons]
    rcases literalChar_cases c with ⟨e, hc, he, hu⟩ | ⟨hc, -, hslash, -⟩
    · rw [hc, List.cons_append, List.singleton_append, pieces?, he, ih]
      · rfl
      · intro a b c d t h
        exact absurd h hu
    · rw [hc, List.singleton_append, pieces?, ih]
      · rfl
      · intro a b c d t h
        exact absurd h hslash
      · intro d t h
        exact absurd h hslash
      · intro h
        exact absurd h hslash

/-- A literal without a backslash is the text itself. -/
theorem flatMap_literalChar_of_not_mem {s : List Char} (h : '\\' ∉ s.flatMap Value.literalChar) :
    s.flatMap Value.literalChar = s := by
  induction s with
  | nil => rfl
  | cons c s ih =>
    rw [List.flatMap_cons, List.mem_append, not_or] at h
    rw [List.flatMap_cons, ih h.2]
    rcases literalChar_cases c with ⟨e, hc, -, -⟩ | ⟨hc, -⟩
    · exact absurd (by rw [hc]; simp) h.1
    · rw [hc]
      rfl

theorem stringToken_literal (s : String) :
    stringToken (s.toList.flatMap Value.literalChar) = .ok (.string s) ∨
      stringToken (s.toList.flatMap Value.literalChar) = .ok (.verbatim s) := by
  unfold stringToken
  split
  · left
    unfold unescape
    rw [pieces?_literal]
    simp [Text.joinUnits_map_char, bind, Except.bind, pure, Except.pure]
  · next h =>
    right
    rw [flatMap_literalChar_of_not_mem (by simpa using h), String.ofList_toList]
    rfl

/-- The literal of a text is a string token, written with escapes or without. -/
theorem spells_text (s : String) (rest : List Char) :
    Spells (.string s) (Value.textLiteral s) rest ∨
      Spells (.verbatim s) (Value.textLiteral s) rest := by
  have hbody := quotedBody?_literal s.toList rest
  have hspells : ∀ token, stringToken (s.toList.flatMap Value.literalChar) = .ok token →
      Spells token (Value.textLiteral s) rest := by
    intro token htoken
    have hread : Lexed.read '"' (s.toList.flatMap Value.literalChar ++ '"' :: rest) =
        Lexed.quoted (s.toList.flatMap Value.literalChar ++ '"' :: rest) := rfl
    unfold Lexed.quoted at hread
    split at hread
    · next b hb =>
      obtain rfl : s.toList.flatMap Value.literalChar = b := Option.some.inj (hbody.symm.trans hb)
      rw [htoken] at hread
      have happend : '"' :: (s.toList.flatMap Value.literalChar ++ '"' :: rest) =
          ('"' :: (s.toList.flatMap Value.literalChar ++ ['"'])) ++ rest := by simp
      refine ⟨'"', _, _, happend.symm, rfl, hread, rfl, ?_⟩
      change List.drop _ _ = rest
      rw [happend, List.drop_left]
    · next hb =>
      rw [hbody] at hb
      cases hb
  exact (stringToken_literal s).imp (hspells _) (hspells _)

/-! ## Rules -/

namespace Lexed

/-- The signs that are tokens by themselves. -/
def signToken? : Char → Option Token
  | '|' => some .pipe
  | ',' => some .comma
  | '(' => some .openParen
  | ')' => some .closeParen
  | '=' => some .assign
  | _ => none

/-- Whether a digit comes first. -/
def digitFirst (s : List Char) : Bool := (s.head?.map Char.isDigit).getD false

/-- The rule by which the token at the first character of a text is read. -/
inductive Rule (c : Char) (s : List Char) : Prop
  | sign {token : Token} (h : signToken? c = some token)
  | colon (h : c = ':')
  | fraction (h : c = '.') (hdigit : digitFirst s = true)
  | dotted (h : c = '.') (hdigit : digitFirst s = false)
  | dollar (h : c = '$')
  | quoted (h : c = '"')
  | raw (h : c = rawMark)
  | digit (h : c.isDigit = true)
  | signed (h : c = '-' ∨ c = '+') (hstarts : Numeral.starts s = true)
  | word (h : isWordStart c = true)
  | other (h : ∀ s', Numeral.starts s' = Numeral.starts s → read c s' = .error (.unexpectedChar c))

theorem read_sign {c : Char} {token : Token} (h : signToken? c = some token) (s : List Char) :
    read c s = .ok (single token c s) := by
  unfold signToken? at h
  split at h <;> cases h <;> rfl

theorem read_fraction {s : List Char} (hdigit : digitFirst s = true) :
    read '.' s = unsigned '.' s rfl := by
  change (if digitFirst s = true then _ else _) = _
  rw [if_pos hdigit]

theorem read_dotted {s : List Char} (hdigit : digitFirst s = false) :
    read '.' s = .ok (dotted '.' s) := by
  change (if digitFirst s = true then _ else _) = _
  rw [hdigit]
  rfl

theorem read_signed {c : Char} {s : List Char} (h : c = '-' ∨ c = '+')
    (hstarts : Numeral.starts s = true) : read c s = signed c s := by
  rcases h with rfl | rfl <;>
  · change (if (true && Numeral.starts s) = true then _ else _) = _
    rw [hstarts]
    rfl

/-- **Every token is read by a rule** that its first character tells, except that a point, a plus and a
minus need a look at what is behind them. -/
theorem rule (c : Char) (s : List Char) : Rule c s := by
  by_cases hsign : ∃ token, signToken? c = some token
  · exact hsign.elim fun _ h => .sign h
  have hne : ∀ d, (signToken? d).isSome = true → c ≠ d := by
    rintro d hd rfl
    exact hsign (Option.isSome_iff_exists.1 hd)
  by_cases hcolon : c = ':'
  · exact .colon hcolon
  by_cases hdot : c = '.'
  · cases hdigit : digitFirst s with
    | true => exact .fraction hdot hdigit
    | false => exact .dotted hdot hdigit
  by_cases hdollar : c = '$'
  · exact .dollar hdollar
  by_cases hquote : c = '"'
  · exact .quoted hquote
  by_cases hraw : c = rawMark
  · exact .raw hraw
  by_cases hdigit : c.isDigit = true
  · exact .digit hdigit
  by_cases hword : isWordStart c = true
  · exact .word hword
  by_cases hsigned : ((c = '-' || c = '+') && Numeral.starts s) = true
  · obtain ⟨hc, hstarts⟩ := Bool.and_eq_true_iff.1 hsigned
    exact .signed (by simpa using hc) hstarts
  refine .other fun s' hs' => ?_
  unfold read
  rw [if_neg (hne '|' rfl), if_neg (hne ',' rfl), if_neg (hne '(' rfl), if_neg (hne ')' rfl),
    if_neg hcolon, if_neg (hne '=' rfl), dif_neg hdot, if_neg hdollar, dif_neg hquote, if_neg hraw,
    dif_neg hdigit, hs', if_neg hsigned, dif_neg hword]
  rfl

end Lexed

end Stencil
