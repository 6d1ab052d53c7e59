import Stencil.Proofs.Pipeline.Padding

/-!
# Tokens on their own

A token is read from its spelling alone: whatever came behind it in its text, the same token is read where
the text ends right behind it or goes on with white space.

* `EndsBlank` are the texts that may come behind the spelling.
* `Numeral.scan_spelling` says so for numbers, `quotedBody?_append` for strings and
  `Lexed.word_word` for words.
* `Lexed.read_spelling` says so for every token, and `Lexed.spells_of_read` concludes that a token that is
  read is spelled by its spelling.
* `tokenize_of_spells` and `tokenize_of_shown` read a text that is the spelling of one token.
-/

namespace Stencil

open Text (isSpace byteSize)

/-- The text is at its end or goes on with white space. -/
def EndsBlank (rest : List Char) : Prop := ∀ c ∈ rest.head?, isSpace c = true

theorem endsBlank_nil : EndsBlank [] := nofun

theorem endsBlank_cons {w : Char} (hw : isSpace w = true) (s : List Char) : EndsBlank (w :: s) := by
  rintro _ ⟨⟩
  exact hw

variable {rest : List Char}

/-- A class without white space ends where white space begins. -/
theorem EndsBlank.head (h : EndsBlank rest) {p : Char → Bool} (hp : ∀ w, isSpace w = true → p w = false) :
    ∀ c ∈ rest.head?, p c = false := fun c hc => hp c (h c hc)

/-! ## Numbers -/

namespace Numeral

theorem scanBody_of_stops {base : Nat} {last : Char}
    (h : ∀ c ∈ rest.head?, continues base last c = false) : scanBody base last rest = [] := by
  cases rest with
  | nil => rfl
  | cons c rest => rw [scanBody, if_neg (by simp [h c rfl])]

/-- A body ends where white space begins. -/
theorem scanBody_scanBody (hrest : EndsBlank rest) (base : Nat) (s : List Char) : ∀ last,
    scanBody base last (scanBody base last s ++ rest) = scanBody base last s := by
  have hstops : ∀ last, scanBody base last rest = [] := fun last =>
    scanBody_of_stops (hrest.head fun _ hw => continues_space hw base last)
  induction s with
  | nil => exact hstops
  | cons c s ih =>
    intro last
    rw [scanBody]
    split
    · next hc => rw [List.cons_append, scanBody, if_pos hc, ih]
    · exact hstops last

/-- A beginning of a text without a mark, with white space behind it, has no mark. -/
theorem scanMark_of_prefix (hrest : EndsBlank rest) {s t : List Char} (hs : scanMark s = ([], 10))
    (ht : t <+: s) : scanMark (t ++ rest) = ([], 10) := by
  obtain ⟨u, rfl⟩ := ht
  match t, rest with
  | [], [] => rfl
  | [], w :: _ => exact scanMark_of_ne (ne_of_class (hrest w rfl) rfl) _
  | [c], [] => simp [scanMark]
  | [c], w :: rest =>
    by_cases hc : c = '0'
    · subst hc
      simp [scanMark, markBase?_space (hrest w rfl)]
    · exact scanMark_of_ne hc _
  | c :: d :: t, rest => exact (scanMark_cons_cons c d _ _).trans hs

/-- **A number is the same with white space right behind it.** -/
theorem scan_spelling (hrest : EndsBlank rest) (sign s : List Char) :
    scan sign ((scan sign s).mark ++ (scan sign s).body ++ rest) = scan sign s := by
  -- White space right behind a single zero could be taken for the letter of a mark, so the mark is first.
  have hmark : scanMark ((scan sign s).mark ++ (scan sign s).body ++ rest) = scanMark s := by
    rcases scanMark_cases s with hnone | ⟨hne, -⟩
    · have hbody : (scan sign s).body <+: s := by
        have hprefix := scanBody_isPrefix 10 ' ' s
        simpa [scan, hnone] using hprefix
      have hscan := scanMark_of_prefix hrest hnone hbody
      simpa [scan, hnone] using hscan
    · unfold scanMark at hne
      split at hne
      · next c t =>
        cases hc : markBase? c with
        | none => simp [hc] at hne
        | some base => simp [scan, scanMark, hc]
      · simp at hne
  unfold scan at hmark ⊢
  dsimp only at hmark ⊢
  rw [hmark, List.append_assoc, List.drop_left, scanBody_scanBody hrest]

/-- Whether a text can start a number is up to its first character. -/
theorem starts_of_prefix {s t : List Char} (ht : t <+: s) (hne : t ≠ []) (rest : List Char) :
    starts (t ++ rest) = starts s := by
  obtain ⟨u, rfl⟩ := ht
  cases t with
  | nil => exact absurd rfl hne
  | cons c t => rfl

end Numeral

/-! ## Words and strings -/

/-- A string ends at its closing quote. -/
theorem quotedBody?_append {s b : List Char} (h : quotedBody? s = some b) (rest : List Char) :
    quotedBody? (b ++ '"' :: rest) = some b := by
  fun_induction quotedBody? s generalizing b with
  | case1 => cases h
  | case2 =>
    cases h
    rfl
  | case3 => cases h
  | case4 c s ih =>
    obtain ⟨b, hb, rfl⟩ := Option.map_eq_some_iff.1 h
    rw [List.cons_append, List.cons_append, quotedBody?, ih hb]
    rfl
  | case5 c s hquote hline hescape ih =>
    obtain ⟨b, hb, rfl⟩ := Option.map_eq_some_iff.1 h
    by_cases hc : c = '\\'
    · cases s with
      | nil => cases hb
      | cons d s => exact (hescape d s hc rfl).elim
    · rw [List.cons_append, quotedBody?_cons hquote hline hc, ih hb]
      rfl

theorem takeWhile_takeWhile_append {p : Char → Bool} (s : List Char)
    (hrest : ∀ c ∈ rest.head?, p c = false) :
    (s.takeWhile p ++ rest).takeWhile p = s.takeWhile p :=
  takeWhile_append_of_stops List.all_takeWhile hrest

namespace Lexed

theorem word_word (hrest : EndsBlank rest) (s : List Char) : word (word s ++ rest) = word s := by
  have hempty : word rest = [] := by
    cases rest with
    | nil => rfl
    | cons w rest =>
      have hstart : isWordStart w = false := by
        rw [Bool.eq_false_iff]
        exact fun h => Bool.eq_false_iff.1 (isWordPart_space (hrest w rfl)) (isWordPart_iff.2 (.inl h))
      simp [word, hstart]
  cases s with
  | nil => exact hempty
  | cons c s =>
    by_cases hc : isWordStart c = true
    · rw [word, if_pos hc, List.cons_append, word, if_pos hc,
        takeWhile_takeWhile_append s (hrest.head fun _ => isWordPart_space)]
    · rw [word, if_neg hc]
      exact hempty

/-! ## Tokens -/

variable {c : Char} {s s' : List Char} {l : Lexed (c :: s)}

theorem shown_eq_ok {o : Outcome Token} {spelling : List Char}
    (h : Except.map shown (.ok l) = o.map ((·, spelling))) : o = .ok l.token ∧ spelling = l.spelling := by
  cases o with
  | error e => cases h
  | ok t =>
    have hshown : l.shown = (t, spelling) := Except.ok.inj h
    obtain ⟨htoken, hspelling⟩ := Prod.mk.inj hshown
    exact ⟨by rw [htoken], hspelling.symm⟩

theorem unsigned_spelling {hs : Numeral.starts (c :: s) = true} (h : unsigned c s hs = .ok l)
    (hrest : EndsBlank rest) (hs' : l.spelling ++ rest = c :: s') (hstarts) :
    (unsigned c s' hstarts).map shown = .ok l.shown := by
  obtain ⟨htoken, hspelling⟩ := shown_eq_ok (h ▸ shown_unsigned c s hs)
  have hscan : Numeral.scan [] (c :: s') = Numeral.scan [] (c :: s) := by
    rw [← hs', ← hspelling]
    exact Numeral.scan_spelling hrest [] (c :: s)
  rw [shown_unsigned, hscan, htoken, hspelling]
  rfl

/-- What comes right behind the first character is the same if it is in the spelling. -/
theorem head?_spelling (hlength : 2 ≤ l.spelling.length) (hs' : l.spelling ++ rest = c :: s') :
    s'.head? = s.head? := by
  have happend := l.append_eq
  match hspelling : l.spelling with
  | [] | [_] => simp [hspelling] at hlength
  | _ :: d :: t =>
    rw [hspelling] at happend hs'
    rw [← (List.cons.inj hs').2, ← (List.cons.inj happend).2]
    rfl

/-- A digit behind a point is in the number. -/
theorem two_le_spelling {l : Lexed ('.' :: s)} (hdigit : digitFirst s = true)
    (h : unsigned '.' s rfl = .ok l) : 2 ≤ l.spelling.length := by
  obtain ⟨-, hspelling⟩ := shown_eq_ok (h ▸ shown_unsigned '.' s rfl)
  cases s with
  | nil => cases hdigit
  | cons d s =>
    have hd : d.isDigit = true := hdigit
    rw [← hspelling]
    simp [Numeral.spelling, Numeral.scan, Numeral.scanMark_of_ne, Numeral.scanBody,
      Numeral.continues, hd]

theorem signed_spelling (h : signed c s = .ok l) (hrest : EndsBlank rest)
    (hs' : l.spelling ++ rest = c :: s') (hstarts : Numeral.starts s = true) :
    Numeral.starts s' = true ∧ (signed c s').map shown = .ok l.shown := by
  obtain ⟨htoken, hspelling⟩ := shown_eq_ok (h ▸ shown_signed c s)
  have hbehind : s' = (Numeral.scan [c] s).mark ++ (Numeral.scan [c] s).body ++ rest := by
    rw [← hspelling] at hs'
    exact (List.cons.inj hs').2.symm
  have hscan : Numeral.scan [c] s' = Numeral.scan [c] s := by
    rw [hbehind]
    exact Numeral.scan_spelling hrest [c] s
  constructor
  · rw [hbehind, Numeral.starts_of_prefix (s := s) _ _ rest, hstarts]
    · exact Numeral.spelling_scan_isPrefix [] s
    · exact Numeral.spelling_scan_ne_nil [] hstarts
  · rw [shown_signed, hscan, htoken, hspelling]
    rfl

theorem quoted_spelling {l : Lexed ('"' :: s)} (h : quoted s = .ok l)
    (hs' : l.spelling ++ rest = '"' :: s') : (quoted s').map shown = .ok l.shown := by
  have hshown := shown_quoted s
  rw [h] at hshown
  cases hb : quotedBody? s with
  | none =>
    rw [hb] at hshown
    cases hshown
  | some b =>
    rw [hb] at hshown
    obtain ⟨htoken, hspelling⟩ := shown_eq_ok hshown
    have hbehind : s' = b ++ '"' :: rest := by
      rw [← hspelling] at hs'
      simpa using (List.cons.inj hs').2.symm
    rw [shown_quoted, hbehind, quotedBody?_append hb]
    simp only [htoken, hspelling]
    rfl

theorem raw_spelling (h : raw c s = .ok l) (hs' : l.spelling ++ rest = c :: s') :
    (raw c s').map shown = .ok l.shown := by
  have hshown := shown_raw c s
  rw [h] at hshown
  by_cases hc : c ∈ s
  · rw [if_pos hc] at hshown
    have hspelling : l.spelling = c :: (s.takeWhile (· ≠ c) ++ [c]) :=
      congrArg Prod.snd (Except.ok.inj hshown)
    have hbehind : s' = s.takeWhile (· ≠ c) ++ c :: rest := by
      rw [hspelling] at hs'
      simpa using (List.cons.inj hs').2.symm
    have hmem : c ∈ s' := by
      rw [hbehind]
      exact List.mem_append_right _ List.mem_cons_self
    have htake : s'.takeWhile (· ≠ c) = s.takeWhile (· ≠ c) := by
      rw [hbehind]
      refine takeWhile_takeWhile_append s ?_
      rintro _ ⟨⟩
      exact decide_eq_false (not_not_intro rfl)
    rw [shown_raw, if_pos hmem, htake]
    exact hshown.symm
  · rw [if_neg hc] at hshown
    cases hshown

/-- A colon is read with the sign behind it. -/
theorem colon_spelling (h : colon c s = .ok l) (hs' : l.spelling ++ rest = c :: s') :
    (colon c s').map shown = .ok l.shown := by
  unfold colon at h
  split at h
  · cases h
    cases hs'
    rfl
  · cases h

theorem dotted_spelling (hdigit : digitFirst s = false)
    (hl : l = dotted c s) (hrest : EndsBlank rest) (hs' : l.spelling ++ rest = c :: s') :
    digitFirst s' = false ∧ (dotted c s').shown = l.shown := by
  subst hl
  have hspelling : (dotted c s).spelling = c :: word s := by
    unfold dotted
    split
    · next h => rw [h]; rfl
    · rfl
  rw [hspelling] at hs'
  obtain rfl : word s ++ rest = s' := (List.cons.inj hs').2
  constructor
  · cases hword : word s with
    | nil =>
      cases rest with
      | nil => rfl
      | cons w rest => exact isDigit_space (hrest w rfl)
    | cons d t =>
      obtain ⟨u, rfl⟩ := hword ▸ word_isPrefix s
      exact hdigit
  · unfold dotted
    rw [word_word hrest]
    split
    · rfl
    · exact shown_marked _ c (word_word hrest s)

/-- **A token is read from its spelling**, whatever came behind it, if white space or nothing comes
there now. -/
theorem read_spelling (h : read c s = .ok l) (hrest : EndsBlank rest)
    (hs' : l.spelling ++ rest = c :: s') : (read c s').map shown = .ok l.shown := by
  cases rule c s with
  | sign hc =>
    rw [read_sign hc] at h ⊢
    cases h
    rfl
  | colon hc =>
    subst hc
    exact colon_spelling h hs'
  | fraction hc hdigit =>
    subst hc
    rw [read_fraction hdigit] at h
    have hdigit' : digitFirst s' = true := by
      rw [digitFirst, head?_spelling (two_le_spelling hdigit h) hs']
      exact hdigit
    rw [read_fraction hdigit']
    exact unsigned_spelling h hrest hs' _
  | dotted hc hdigit =>
    subst hc
    rw [read_dotted hdigit] at h
    obtain ⟨hdigit', hshown⟩ := dotted_spelling hdigit (Except.ok.inj h).symm hrest hs'
    rw [read_dotted hdigit', ← hshown]
    rfl
  | dollar hc =>
    subst hc
    cases h
    obtain rfl : word s ++ rest = s' := (List.cons.inj hs').2
    exact congrArg Except.ok (shown_marked _ '$' (word_word hrest s))
  | quoted hc =>
    subst hc
    exact quoted_spelling h hs'
  | raw hc =>
    subst hc
    exact raw_spelling h hs'
  | digit hc =>
    rw [read_digit hc] at h ⊢
    exact unsigned_spelling h hrest hs' _
  | signed hc hstarts =>
    rw [read_signed hc hstarts] at h
    obtain ⟨hstarts', hshown⟩ := signed_spelling h hrest hs' hstarts
    rw [read_signed hc hstarts', hshown]
  | word hc =>
    have hword : word (c :: s') = word (c :: s) := by
      rw [read_wordStart hc] at h
      cases h
      rw [← hs']
      exact word_word hrest (c :: s)
    rw [read_wordStart hc] at h ⊢
    cases h
    simp [ofPrefix, shown, hword, Except.map]
  | other hc =>
    rw [hc s rfl] at h
    cases h

/-- **A token that is read is spelled by its spelling.** -/
theorem spells_of_read (hc : isSpace c = false) (h : read c s = .ok l) (hrest : EndsBlank rest) :
    Spells l.token l.spelling rest := by
  obtain ⟨d, t, hspelling⟩ := List.exists_cons_of_ne_nil l.spelling_ne_nil
  have happend := l.append_eq
  rw [hspelling] at happend
  obtain rfl : d = c := (List.cons.inj happend).1
  have hbehind : l.spelling ++ rest = d :: (t ++ rest) := by
    rw [hspelling]
    rfl
  have hshown := read_spelling h hrest hbehind
  cases hl : read d (t ++ rest) with
  | error e =>
    rw [hl] at hshown
    cases hshown
  | ok l' =>
    rw [hl] at hshown
    obtain ⟨htoken, hsame⟩ := Prod.mk.inj (Except.ok.inj hshown)
    refine ⟨d, t ++ rest, l', hbehind, hc, hl, htoken, ?_⟩
    have happend' := l'.append_eq.trans hbehind.symm
    rw [hsame] at happend'
    exact List.append_cancel_left happend'

end Lexed

/-! ## Texts of one token -/

/-- **A text that spells a token** has this token and no other. -/
theorem tokenize_of_spells {token : Token} {spelling : List Char} (h : Spells token spelling []) :
    tokenize spelling = .ok [⟨token, 0, (byteSize spelling).toUInt32⟩] := by
  obtain ⟨c, s, l, heq, hc, hl, rfl, hrest⟩ := h
  rw [List.append_nil] at heq
  subst heq
  have hspelling := l.append_eq
  rw [hrest, List.append_nil] at hspelling
  have hscan := Lexeme.scan_of_next_some (Lexeme.next_token hc 0 hl)
  rw [hrest, Lexeme.scan_of_next_none (Lexeme.next_nil _), hspelling, UInt32.zero_add] at hscan
  unfold tokenize
  rw [hscan]
  rfl

/-- A text that is taken for one token as a whole has this token, or fails as it does. -/
theorem tokenize_of_shown {c : Char} {s : List Char} {o : Outcome Token} (hc : isSpace c = false)
    (h : (Lexed.read c s).map Lexed.shown = o.map ((·, c :: s))) :
    tokenize (c :: s) = o.map fun token => [⟨token, 0, (byteSize (c :: s)).toUInt32⟩] := by
  cases hl : Lexed.read c s with
  | error e =>
    rw [hl] at h
    cases o with
    | ok token => cases h
    | error e' =>
      cases h
      have hnext := Lexeme.next_cons (s := s) hc 0
      rw [hl] at hnext
      unfold tokenize
      rw [Lexeme.scan_of_next_error hnext]
      rfl
  | ok l =>
    obtain ⟨rfl, hspelling⟩ := Lexed.shown_eq_ok (hl ▸ h)
    have happend := l.append_eq
    rw [← hspelling] at happend
    exact tokenize_of_spells
      ⟨c, s, l, List.append_nil _, hc, hl, rfl, List.append_right_eq_self.1 happend⟩

end Stencil
