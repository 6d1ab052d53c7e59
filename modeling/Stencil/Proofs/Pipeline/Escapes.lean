import Mathlib
import Stencil.Pipeline.Literal
import Stencil.Proofs.Number.Digits

/-!
# Escapes in strings

The texts that a string in double quotes may consist of and what they denote.

* `Unescapes` is the grammar of such texts, with the escapes of code units as a parameter: those of four
  digits (`FourDigits`) and those that are read (`UnitCode`), where a plus sign may take the place of the
  first digit.
* `unescape_eq_ok_iff` says that `unescape` reads the grammar, and `Unescapes.fourDigits` that the plus
  sign is the only difference between the two.
* `unescape_grammar` puts this together, with the escapes of the code units of any text.
-/

namespace Stencil

open Text (Piece joinUnits isHighSurrogate isLowSurrogate pairChar)

/-! ## The grammar -/

/-- The characters behind a backslash and what they denote. -/
def escapes : List (Char × Char) :=
  [('"', '"'), ('\\', '\\'), ('/', '/'), ('\'', '\''), ('a', '\x07'), ('b', '\x08'), ('f', '\x0c'),
    ('n', '\n'), ('r', '\r'), ('t', '\t'), ('v', '\x0b')]

/-- Four digits in base sixteen. -/
def FourDigits (ds : List Char) (n : Nat) : Prop := ds.length = 4 ∧ SpellsIn 16 ds n

/-- Four digits in base sixteen, or a plus sign and three. -/
def UnitCode (ds : List Char) (n : Nat) : Prop :=
  FourDigits ds n ∨ ∃ es, ds = '+' :: es ∧ es.length = 3 ∧ SpellsIn 16 es n

/-- The text of a string denotes a text; `Code` tells the texts of code units. -/
inductive Unescapes (Code : List Char → Nat → Prop) : List Char → List Char → Prop
  | nil : Unescapes Code [] []
  | char {c : Char} {s t : List Char} (hc : c ≠ '\\') (h : Unescapes Code s t) :
    Unescapes Code (c :: s) (c :: t)
  | letter {e c : Char} {s t : List Char} (he : (e, c) ∈ escapes) (h : Unescapes Code s t) :
    Unescapes Code ('\\' :: e :: s) (c :: t)
  | unit {ds s t : List Char} {c : Char} (hc : Code ds c.toNat) (h : Unescapes Code s t) :
    Unescapes Code ('\\' :: 'u' :: (ds ++ s)) (c :: t)
  | pair {ds es s t : List Char} {high low : Nat} {c : Char} (hhigh : Code ds high)
    (hlow : Code es low) (hhighs : 0xd800 ≤ high ∧ high < 0xdc00) (hlows : 0xdc00 ≤ low ∧ low < 0xe000)
    (hc : c.toNat = 0x10000 + (high - 0xd800) * 0x400 + (low - 0xdc00)) (h : Unescapes Code s t) :
    Unescapes Code ('\\' :: 'u' :: (ds ++ '\\' :: 'u' :: (es ++ s))) (c :: t)

/-- The code units of a character. -/
def codeUnits (c : Char) : List Nat :=
  if c.toNat < 0x10000 then [c.toNat]
  else [0xd800 + (c.toNat - 0x10000) / 0x400, 0xdc00 + (c.toNat - 0x10000) % 0x400]

/-- The text consists of the escapes of these code units. -/
inductive EscapesUnits : List Nat → List Char → Prop
  | nil : EscapesUnits [] []
  | cons {n : Nat} {ns : List Nat} {ds s : List Char} (hn : FourDigits ds n) (h : EscapesUnits ns s) :
    EscapesUnits (n :: ns) ('\\' :: 'u' :: (ds ++ s))

variable {s t ds : List Char} {n : Nat}

/-! ## Escapes -/

theorem escaped?_eq_some_iff {e c : Char} : escaped? e = some c ↔ (e, c) ∈ escapes := by
  unfold escaped?
  split <;> simp_all [escapes, eq_comm]

theorem ne_of_mem_escapes {e c : Char} (h : (e, c) ∈ escapes) : e ≠ 'u' := by
  have hall : ∀ p ∈ escapes, p.1 ≠ 'u' := by decide
  exact hall _ h

/-- Escapes of code units have four characters, and denote no more than sixteen bits. -/
theorem UnitCode.length_lt (h : UnitCode ds n) : ds.length = 4 ∧ n < 0x10000 := by
  rcases h with ⟨hlength, hn⟩ | ⟨es, rfl, hlength, hn⟩
  · have hlt := hn.lt (by decide)
    rw [hlength] at hlt
    exact ⟨hlength, hlt⟩
  · have hlt := hn.lt (by decide)
    rw [hlength] at hlt
    exact ⟨by rw [List.length_cons, hlength], by omega⟩

theorem fourDigits_of_value (hlength : ds.length = 4) (hvalue : digitsValue? 16 ds = some n) :
    FourDigits ds n :=
  ⟨hlength, (digitsValue?_eq_some_iff (by decide)).1 hvalue⟩

/-- No digit is a plus sign. -/
theorem not_spellsIn_plus (es : List Char) : ¬ SpellsIn 16 ('+' :: es) n := by
  intro h
  have hvalue := (digitsValue?_eq_some_iff (by decide)).2 h
  cases hvalue

theorem unitValue?_eq_some_iff {a b c d : Char} :
    unitValue? a b c d = some n ↔ UnitCode [a, b, c, d] n := by
  unfold unitValue? UnitCode FourDigits
  by_cases ha : a = '+'
  · subst ha
    simp [digitsValue?_eq_some_iff, not_spellsIn_plus]
  · simp [ha, digitsValue?_eq_some_iff]

/-! ## The pieces of a string -/

/-- The text starts with a piece, and goes on with another text behind it. -/
inductive StartsPiece : List Char → Piece → List Char → Prop
  | char {c : Char} {s : List Char} (hc : c ≠ '\\') : StartsPiece (c :: s) (.char c) s
  | letter {e c : Char} {s : List Char} (he : (e, c) ∈ escapes) :
    StartsPiece ('\\' :: e :: s) (.char c) s
  | unit {ds s : List Char} {n : Nat} (hn : UnitCode ds n) :
    StartsPiece ('\\' :: 'u' :: (ds ++ s)) (.unit n) s

theorem pieces?_eq_nil_iff : pieces? s = some [] ↔ s = [] := by
  constructor
  · intro h
    fun_cases pieces? s <;> simp_all [pieces?, Option.bind_eq_some_iff]
  · rintro rfl
    rfl

/-- **The pieces of a text** are read one by one. -/
theorem pieces?_eq_cons_iff {p : Piece} {ps : List Piece} :
    pieces? s = some (p :: ps) ↔ ∃ s', StartsPiece s p s' ∧ pieces? s' = some ps := by
  constructor
  · intro h
    fun_cases pieces? s with
    | case1 => cases h
    | case2 a b c d s =>
      rw [pieces?] at h
      obtain ⟨n, hn, ps', hps, heq⟩ : ∃ n, unitValue? a b c d = some n ∧
          ∃ ps', pieces? s = some ps' ∧ .unit n :: ps' = p :: ps := by
        simpa [Option.bind_eq_some_iff] using h
      cases heq
      have hstart : StartsPiece ('\\' :: 'u' :: ([a, b, c, d] ++ s)) (.unit n) s :=
        .unit (unitValue?_eq_some_iff.1 hn)
      exact ⟨s, hstart, hps⟩
    | case3 e s hunit =>
      rw [pieces?] at h
      · obtain ⟨c, hc, ps', hps, heq⟩ : ∃ c, escaped? e = some c ∧
            ∃ ps', pieces? s = some ps' ∧ .char c :: ps' = p :: ps := by
          simpa [Option.bind_eq_some_iff] using h
        cases heq
        exact ⟨s, .letter (escaped?_eq_some_iff.1 hc), hps⟩
      · exact hunit
    | case4 => cases h
    | case5 c s hunit hescape hend =>
      rw [pieces?] at h
      · obtain ⟨ps', hps, heq⟩ := Option.map_eq_some_iff.1 h
        cases heq
        refine ⟨s, .char ?_, hps⟩
        rintro rfl
        cases s with
        | nil => exact hend rfl rfl
        | cons d s => exact hescape d s rfl rfl
      · exact hunit
      · exact hescape
      · exact hend
  · rintro ⟨s', hstart, hps⟩
    cases hstart with
    | char hc =>
      rw [pieces?, hps]
      · rfl
      · exact fun _ _ _ _ _ h => absurd h hc
      · exact fun _ _ h => absurd h hc
      · exact fun h => absurd h hc
    | letter he =>
      rw [pieces?, escaped?_eq_some_iff.2 he, hps]
      · rfl
      · exact fun _ _ _ _ _ h => absurd h (ne_of_mem_escapes he)
    | @unit ds _ n hn =>
      obtain ⟨a, b, c, d, rfl⟩ := List.length_eq_four.1 hn.length_lt.1
      change pieces? ('\\' :: 'u' :: a :: b :: c :: d :: s') = _
      rw [pieces?, unitValue?_eq_some_iff.2 hn, hps]
      rfl

/-! ## The characters of the pieces -/

theorem toNat_ofNat_of_isValidChar (h : n.isValidChar) : (Char.ofNat n).toNat = n := by
  unfold Char.ofNat
  rw [dif_pos h]
  rfl

/-- A number that is no surrogate and has sixteen bits is that of a character. -/
theorem toNat_ofNat_of_unit (hn : n < 0x10000) (hhigh : ¬ isHighSurrogate n = true)
    (hlow : ¬ isLowSurrogate n = true) : (Char.ofNat n).toNat = n := by
  simp only [isHighSurrogate, isLowSurrogate, Bool.and_eq_true, decide_eq_true_eq] at hhigh hlow
  refine toNat_ofNat_of_isValidChar ?_
  unfold Nat.isValidChar
  omega

/-- A pair of surrogates gives the character of its twenty bits. -/
theorem pairChar_eq_iff {high low : Nat} {c : Char} (hhigh : 0xd800 ≤ high ∧ high < 0xdc00)
    (hlow : 0xdc00 ≤ low ∧ low < 0xe000) :
    pairChar high low = c ↔ c.toNat = 0x10000 + (high - 0xd800) * 0x400 + (low - 0xdc00) := by
  have htoNat : (pairChar high low).toNat = 0x10000 + (high - 0xd800) * 0x400 + (low - 0xdc00) := by
    refine toNat_ofNat_of_isValidChar ?_
    unfold Nat.isValidChar
    omega
  rw [← htoNat, eq_comm (a := pairChar high low), Char.toNat_inj]

theorem joinUnits_unit (c : Char) (ps : List Piece) :
    joinUnits (.unit c.toNat :: ps) = (joinUnits ps).map (c :: ·) := by
  have hvalid : c.toNat < 0xd800 ∨ 0xdfff < c.toNat ∧ c.toNat < 0x110000 := c.valid
  have hhigh : isHighSurrogate c.toNat = false := by simp [isHighSurrogate]; omega
  have hlow : isLowSurrogate c.toNat = false := by simp [isLowSurrogate]; omega
  conv => lhs; unfold joinUnits
  simp only [hhigh, hlow, Char.ofNat_toNat]
  rfl

/-- **The grammar is read piece by piece**, a surrogate with the one behind it. -/
theorem unescapes_iff_pieces? :
    Unescapes UnitCode s t ↔ ∃ ps, pieces? s = some ps ∧ joinUnits ps = some t := by
  constructor
  · intro h
    induction h with
    | nil => exact ⟨[], rfl, rfl⟩
    | @char c _ _ hc _ ih =>
      obtain ⟨ps, hps, hjoin⟩ := ih
      exact ⟨.char c :: ps, pieces?_eq_cons_iff.2 ⟨_, .char hc, hps⟩, by rw [joinUnits, hjoin]; rfl⟩
    | @letter _ c _ _ he _ ih =>
      obtain ⟨ps, hps, hjoin⟩ := ih
      exact ⟨.char c :: ps, pieces?_eq_cons_iff.2 ⟨_, .letter he, hps⟩, by rw [joinUnits, hjoin]; rfl⟩
    | @unit _ _ _ c hc _ ih =>
      obtain ⟨ps, hps, hjoin⟩ := ih
      exact ⟨.unit c.toNat :: ps, pieces?_eq_cons_iff.2 ⟨_, .unit hc, hps⟩,
        by rw [joinUnits_unit, hjoin]; rfl⟩
    | @pair _ _ _ _ high low c hhigh hlow hhighs hlows hc _ ih =>
      obtain ⟨ps, hps, hjoin⟩ := ih
      refine ⟨.unit high :: .unit low :: ps,
        pieces?_eq_cons_iff.2 ⟨_, .unit hhigh, pieces?_eq_cons_iff.2 ⟨_, .unit hlow, hps⟩⟩, ?_⟩
      have hishigh : isHighSurrogate high = true := by simpa [isHighSurrogate] using hhighs
      have hislow : isLowSurrogate low = true := by simpa [isLowSurrogate] using hlows
      rw [joinUnits, if_pos hishigh, if_pos hislow, (pairChar_eq_iff hhighs hlows).2 hc, hjoin]
      rfl
  · rintro ⟨ps, hps, hjoin⟩
    -- Along `joinUnits`, which takes a high surrogate with the piece behind it.
    fun_induction joinUnits ps generalizing s t with
    | case1 =>
      cases hjoin
      obtain rfl := pieces?_eq_nil_iff.1 hps
      exact .nil
    | case2 c ps ih =>
      obtain ⟨t, ht, rfl⟩ := Option.map_eq_some_iff.1 hjoin
      obtain ⟨s', hstart, hps'⟩ := pieces?_eq_cons_iff.1 hps
      cases hstart with
      | char hc => exact .char hc (ih hps' ht)
      | letter he => exact .letter he (ih hps' ht)
    | case3 n hhigh m ps hlow ih =>
      obtain ⟨t, ht, rfl⟩ := Option.map_eq_some_iff.1 hjoin
      obtain ⟨s', hstart, hps'⟩ := pieces?_eq_cons_iff.1 hps
      obtain ⟨s'', hstart', hps''⟩ := pieces?_eq_cons_iff.1 hps'
      simp only [isHighSurrogate, isLowSurrogate, Bool.and_eq_true, decide_eq_true_eq] at hhigh hlow
      cases hstart with
      | unit hn =>
        cases hstart' with
        | unit hm => exact .pair hn hm hhigh hlow ((pairChar_eq_iff hhigh hlow).1 rfl) (ih hps'' ht)
    | case4 => cases hjoin
    | case5 => cases hjoin
    | case6 => cases hjoin
    | case7 n ps hhigh hlow ih =>
      obtain ⟨t, ht, rfl⟩ := Option.map_eq_some_iff.1 hjoin
      obtain ⟨s', hstart, hps'⟩ := pieces?_eq_cons_iff.1 hps
      cases hstart with
      | unit hn =>
        refine .unit ?_ (ih hps' ht)
        rwa [toNat_ofNat_of_unit hn.length_lt.2 hhigh hlow]

/-- **A string is read exactly if it is one of the grammar**, as what it denotes there. -/
theorem unescape_eq_ok_iff : unescape s = .ok t ↔ Unescapes UnitCode s t := by
  have hread : unescape s = .ok t ↔ (pieces? s >>= joinUnits) = some t := by
    unfold unescape
    cases pieces? s >>= joinUnits with
    | none => exact ⟨nofun, nofun⟩
    | some t' => simp [pure, Except.pure]
  rw [hread, unescapes_iff_pieces?]
  exact Option.bind_eq_some_iff

/-! ## The plus sign -/

/-- The beginning of an escape with a plus sign. -/
def plusEscape : List Char := ['\\', 'u', '+']

theorem Unescapes.mono {Code Code' : List Char → Nat → Prop} (hcode : ∀ ds n, Code ds n → Code' ds n)
    (h : Unescapes Code s t) : Unescapes Code' s t := by
  induction h with
  | nil => exact .nil
  | char hc _ ih => exact .char hc ih
  | letter he _ ih => exact .letter he ih
  | unit hc _ ih => exact .unit (hcode _ _ hc) ih
  | pair hhigh hlow hhighs hlows hc _ ih =>
    exact .pair (hcode _ _ hhigh) (hcode _ _ hlow) hhighs hlows hc ih

/-- Without a plus sign in it, an escape has four digits. -/
theorem UnitCode.fourDigits (h : UnitCode ds n)
    (hplus : ¬ plusEscape <:+: '\\' :: 'u' :: (ds ++ s)) : FourDigits ds n := by
  rcases h with h | ⟨es, rfl, -⟩
  · exact h
  · exact absurd ⟨[], es ++ s, rfl⟩ hplus

/-- **A plus sign behind `u` is the only difference** from escapes of four digits. -/
theorem Unescapes.fourDigits (h : Unescapes UnitCode s t) (hplus : ¬ plusEscape <:+: s) :
    Unescapes FourDigits s t := by
  have hrest : ∀ {u s : List Char}, ¬ plusEscape <:+: u ++ s → ¬ plusEscape <:+: s :=
    fun hplus h => hplus (h.trans (List.suffix_append _ _).isInfix)
  induction h with
  | nil => exact .nil
  | @char c _ _ hc _ ih => exact .char hc (ih (hrest (u := [c]) hplus))
  | @letter e _ _ _ he _ ih => exact .letter he (ih (hrest (u := ['\\', e]) hplus))
  | @unit ds _ _ _ hc _ ih =>
    exact .unit (hc.fourDigits hplus) (ih (hrest (u := '\\' :: 'u' :: ds) hplus))
  | @pair ds es _ _ _ _ _ hhigh hlow hhighs hlows hc _ ih =>
    have hplus' := hrest (u := '\\' :: 'u' :: ds) hplus
    exact .pair (hhigh.fourDigits hplus) (hlow.fourDigits hplus') hhighs hlows hc
      (ih (hrest (u := '\\' :: 'u' :: es) hplus'))

theorem FourDigits.append_ne (h : FourDigits ds n) (r s : List Char) : ds ++ r ≠ '+' :: s := by
  intro heq
  cases ds with
  | nil => exact h.2.1 rfl
  | cons d ds =>
    obtain rfl : d = '+' := (List.cons.inj heq).1
    exact not_spellsIn_plus ds h.2

/-- A plus sign is none of four digits. -/
theorem not_unescapes_plus : ¬ Unescapes FourDigits (plusEscape ++ s) t := by
  intro h
  generalize hr : plusEscape ++ s = r at h
  cases h with
  | nil => cases hr
  | char hc => exact hc (List.cons.inj hr).1.symm
  | letter he => exact ne_of_mem_escapes he (List.cons.inj (List.cons.inj hr).2).1.symm
  | unit hn => exact hn.append_ne _ _ (List.cons.inj (List.cons.inj hr).2).2.symm
  | pair hhigh => exact hhigh.append_ne _ _ (List.cons.inj (List.cons.inj hr).2).2.symm

/-! ## Texts in code units -/

theorem lt_of_mem_codeUnits {c : Char} (h : n ∈ codeUnits c) : n < 0x10000 := by
  have hvalid : c.toNat < 0xd800 ∨ 0xdfff < c.toNat ∧ c.toNat < 0x110000 := c.valid
  unfold codeUnits at h
  split at h <;> simp only [List.mem_cons, List.not_mem_nil, or_false] at h <;> omega

theorem exists_fourDigits (hn : n < 0x10000) : ∃ ds, FourDigits ds n := by
  let vs := [n / 4096, n / 256 % 16, n / 16 % 16, n % 16]
  have hvalue : Nat.ofDigits 16 vs.reverse = n := by
    simp only [vs, List.reverse_cons, List.reverse_nil, List.nil_append, List.cons_append,
      Nat.ofDigits_cons, Nat.ofDigits_nil]
    omega
  have hdigits : DigitsIn 16 vs (vs.map Nat.digitChar) := by
    refine List.forall₂_map_right_iff.2 (List.forall₂_same.2 fun v hv => ⟨?_, .inl rfl⟩)
    simp only [vs, List.mem_cons, List.not_mem_nil, or_false] at hv
    omega
  exact ⟨vs.map Nat.digitChar, rfl, nofun, vs, hdigits, hvalue⟩

theorem exists_escapesUnits {ns : List Nat} (h : ∀ n ∈ ns, n < 0x10000) : ∃ s, EscapesUnits ns s := by
  induction ns with
  | nil => exact ⟨[], .nil⟩
  | cons n ns ih =>
    obtain ⟨ds, hds⟩ := exists_fourDigits (h n List.mem_cons_self)
    obtain ⟨s, hs⟩ := ih fun m hm => h m (List.mem_cons_of_mem n hm)
    exact ⟨_, .cons hds hs⟩

theorem EscapesUnits.of_cons {ns : List Nat} (h : EscapesUnits (n :: ns) s) :
    ∃ ds s', s = '\\' :: 'u' :: (ds ++ s') ∧ FourDigits ds n ∧ EscapesUnits ns s' := by
  cases h with
  | cons hn h => exact ⟨_, _, rfl, hn, h⟩

/-- The escapes of the code units of a text denote the text. -/
theorem unescapes_codeUnits (h : EscapesUnits (t.flatMap codeUnits) s) : Unescapes FourDigits s t := by
  induction t generalizing s with
  | nil =>
    cases h
    exact .nil
  | cons c t ih =>
    rw [List.flatMap_cons] at h
    by_cases hc : c.toNat < 0x10000
    · rw [codeUnits, if_pos hc] at h
      obtain ⟨ds, s, rfl, hn, h⟩ := EscapesUnits.of_cons h
      exact .unit hn (ih h)
    · have hvalid : c.toNat < 0xd800 ∨ 0xdfff < c.toNat ∧ c.toNat < 0x110000 := c.valid
      rw [codeUnits, if_neg hc] at h
      obtain ⟨ds, s, rfl, hhigh, h⟩ := EscapesUnits.of_cons h
      obtain ⟨es, s, rfl, hlow, h⟩ := EscapesUnits.of_cons h
      exact .pair hhigh hlow (by omega) (by omega) (by omega) (ih h)

/-! ## Strings -/

/-- **What a string may consist of.** A text is read exactly if it is in the grammar where the escape of a
code unit has four digits or a plus sign and three, as what it denotes there. The grammar with four digits
alone is met exactly where no plus sign is needed, so wherever none stands behind a `u` with a backslash.
Every text can be written in escapes of its code units, and is read from them. -/
theorem unescape_grammar (s : List Char) :
    (∀ t, unescape s = .ok t ↔ Unescapes UnitCode s t) ∧
    ((∀ t, unescape s = .ok t ↔ Unescapes FourDigits s t) ↔
      ∀ t, Unescapes UnitCode s t → Unescapes FourDigits s t) ∧
    (¬ plusEscape <:+: s → ∀ t, unescape s = .ok t ↔ Unescapes FourDigits s t) ∧
    (∃ r, EscapesUnits (s.flatMap codeUnits) r) ∧
    ∀ r, EscapesUnits (s.flatMap codeUnits) r → unescape r = .ok s := by
  have hmono : ∀ {s t}, Unescapes FourDigits s t → unescape s = .ok t :=
    fun h => unescape_eq_ok_iff.2 (h.mono fun _ _ => .inl)
  have hfour : (∀ t, unescape s = .ok t ↔ Unescapes FourDigits s t) ↔
      ∀ t, Unescapes UnitCode s t → Unescapes FourDigits s t :=
    ⟨fun h t ht => (h t).1 (unescape_eq_ok_iff.2 ht),
      fun h t => ⟨fun ht => h t (unescape_eq_ok_iff.1 ht), hmono⟩⟩
  refine ⟨fun t => unescape_eq_ok_iff, hfour, fun hplus => ?_, exists_escapesUnits fun n hn => ?_, ?_⟩
  · exact hfour.2 fun t ht => ht.fourDigits hplus
  · obtain ⟨c, -, hc⟩ := List.mem_flatMap.1 hn
    exact lt_of_mem_codeUnits hc
  · exact fun r h => hmono (unescapes_codeUnits h)

/-- A pair of surrogates, in lower and in upper case, and a character of its own. -/
theorem unescape_grammar_pair : ¬ plusEscape <:+: "\\ud83d\\uDE00!".toList ∧
    unescape "\\ud83d\\uDE00!".toList = .ok "😀!".toList ∧
    Unescapes FourDigits "\\ud83d\\uDE00!".toList "😀!".toList := by
  have hplus : ¬ plusEscape <:+: "\\ud83d\\uDE00!".toList := by simp [plusEscape, List.infix_cons_iff]
  have hread : unescape "\\ud83d\\uDE00!".toList = .ok "😀!".toList := by cbv
  exact ⟨hplus, hread, ((unescape_grammar _).2.2.1 hplus _).1 hread⟩

/-- **An escape with a plus sign is read**, though it has no four digits. -/
theorem plus_taken_for_digit : unescape "\\u+041".toList = .ok "A".toList ∧
    ∀ t, ¬ Unescapes FourDigits "\\u+041".toList t :=
  ⟨by cbv, fun _ => not_unescapes_plus (s := "041".toList)⟩

end Stencil
