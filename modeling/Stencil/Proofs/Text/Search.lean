import Stencil.Text.Search
import Stencil.Text.Space

/-!
# Searches that stop at white space

A needle without white space is never found across white space, so a text can be searched word by word.

* `cut?_eq_none_iff` says when a search fails, `cut?_eq_some_iff` what it finds, and `cut?_append` that
  text behind a find changes nothing.
* `cut?_append_space` goes on with the search behind a character of white space.
* `trimStart_eq_iff`, `trimEnd_eq_iff` and `trim_eq_iff` say what trimming leaves of a text.
* `Tight` are the texts that trimming leaves as they are, and `trim_padded` finds one between spaces.
-/

namespace Stencil.Text

variable {needle s t before rest kept : List Char} {c : Char}

/-! ## Finds -/

theorem after?_eq_none_iff : after? needle s = none ↔ ¬ needle <+: s := by
  rw [Option.eq_none_iff_forall_ne_some]
  constructor
  · rintro h ⟨r, rfl⟩
    exact h r (after?_eq_some_iff.2 rfl)
  · rintro h r hr
    exact h ⟨r, (after?_eq_some_iff.1 hr).symm⟩

theorem startsWith_iff : startsWith needle s = true ↔ needle <+: s := by
  rw [startsWith, Option.isSome_iff_ne_none, ne_eq, after?_eq_none_iff, Classical.not_not]

theorem endsWith_iff : endsWith needle s = true ↔ needle <:+ s := by
  rw [endsWith, startsWith_iff, List.reverse_prefix]

theorem cut?_eq_none_iff : cut? needle s = none ↔ ¬ needle <:+: s := by
  induction s with
  | nil => simp [cut?, after?_eq_none_iff]
  | cons c s ih =>
    rw [List.infix_cons_iff, not_or, ← after?_eq_none_iff, ← ih, cut?]
    cases after? needle (c :: s) <;> simp

theorem cut?_append (h : cut? needle s = some (before, rest)) (t : List Char) :
    cut? needle (s ++ t) = some (before, rest ++ t) := by
  induction s generalizing before with
  | nil =>
    simp only [cut?, Option.map_eq_some_iff] at h
    obtain ⟨r, hr, h⟩ := h
    obtain ⟨rfl, rfl⟩ := Prod.mk.inj h
    obtain ⟨rfl, rfl⟩ := List.append_eq_nil_iff.1 (after?_eq_some_iff.1 hr).symm
    cases t <;> simp [cut?]
  | cons c s ih =>
    rw [cut?] at h
    cases hafter : after? needle (c :: s) with
    | some r =>
      rw [hafter] at h
      obtain ⟨rfl, rfl⟩ := Prod.mk.inj (Option.some.inj h)
      have hmore : after? needle (c :: (s ++ t)) = some (r ++ t) := by
        rw [after?_eq_some_iff] at hafter ⊢
        rw [← List.cons_append, hafter, List.append_assoc]
      rw [List.cons_append, cut?, hmore]
    | none =>
      simp only [hafter, Option.map_eq_some_iff] at h
      obtain ⟨⟨b, r⟩, hb, h⟩ := h
      obtain ⟨rfl, rfl⟩ := Prod.mk.inj h
      -- what is found further on says that the needle is no longer than the text here
      have hmore : after? needle (c :: (s ++ t)) = none := by
        rw [after?_eq_none_iff] at hafter ⊢
        intro hprefix
        refine hafter (List.prefix_of_prefix_length_le hprefix (List.prefix_append (c :: s) t) ?_)
        rw [cut?_eq_append hb]
        simp only [List.length_cons, List.length_append]
        omega
      rw [List.cons_append, cut?, hmore]
      simp [ih hb]

theorem cut?_self (t : List Char) : cut? needle (needle ++ t) = some ([], t) := by
  cases needle with
  | nil => cases t <;> simp [cut?]
  | cons n ns =>
    have hafter : after? (n :: ns) (n :: (ns ++ t)) = some t := after?_eq_some_iff.2 rfl
    rw [List.cons_append, cut?, hafter]

/-- The needle stands nowhere in the text earlier than behind `before`. -/
def Leftmost (needle before s : List Char) : Prop :=
  ∀ u, u ++ needle <+: s → before.length ≤ u.length

theorem leftmost_of_cut? (h : cut? needle s = some (before, rest)) : Leftmost needle before s := by
  induction s generalizing before with
  | nil =>
    simp only [cut?, Option.map_eq_some_iff] at h
    obtain ⟨r, -, h⟩ := h
    obtain ⟨rfl, rfl⟩ := Prod.mk.inj h
    exact fun u _ => Nat.zero_le _
  | cons c s ih =>
    rw [cut?] at h
    cases hafter : after? needle (c :: s) with
    | some r =>
      rw [hafter] at h
      obtain ⟨rfl, rfl⟩ := Prod.mk.inj (Option.some.inj h)
      exact fun u _ => Nat.zero_le _
    | none =>
      simp only [hafter, Option.map_eq_some_iff] at h
      obtain ⟨⟨b, r⟩, hb, h⟩ := h
      obtain ⟨rfl, rfl⟩ := Prod.mk.inj h
      rintro (_ | ⟨e, u⟩) hu
      · exact absurd hu (after?_eq_none_iff.1 hafter)
      · rw [List.cons_append, List.cons_prefix_cons] at hu
        exact Nat.succ_le_succ (ih hb u hu.2)

/-- A search finds the first occurrence: the one that no other is earlier than. -/
theorem cut?_eq_some_iff : cut? needle s = some (before, rest) ↔
    s = before ++ (needle ++ rest) ∧ Leftmost needle before s := by
  constructor
  · intro h
    refine ⟨?_, leftmost_of_cut? h⟩
    rw [cut?_eq_append h, List.append_assoc]
  · rintro ⟨rfl, hfirst⟩
    cases hcut : cut? needle (before ++ (needle ++ rest)) with
    | none => exact absurd ⟨before, rest, by simp⟩ (cut?_eq_none_iff.1 hcut)
    | some p =>
      obtain ⟨before', rest'⟩ := p
      have heq := cut?_eq_append hcut
      rw [List.append_assoc] at heq
      have hlength : before.length = before'.length := by
        apply Nat.le_antisymm
        · exact hfirst before' ⟨rest', by rw [List.append_assoc, heq]⟩
        · exact leftmost_of_cut? hcut before ⟨rest, by rw [List.append_assoc]⟩
      obtain ⟨rfl, hrest⟩ := List.append_inj heq hlength
      rw [List.append_cancel_left hrest]

theorem Leftmost.tail (h : Leftmost needle (c :: s) (c :: t)) : Leftmost needle s t := fun u hu =>
  Nat.le_of_succ_le_succ (h (c :: u) (List.cons_prefix_cons.2 ⟨rfl, hu⟩))

theorem Leftmost.not_prefix (h : Leftmost needle (c :: s) t) : ¬ needle <+: t := fun hprefix =>
  Nat.not_succ_le_zero _ (h [] hprefix)

theorem Leftmost.of_prefix (h : Leftmost needle before t) (hs : s <+: t) : Leftmost needle before s :=
  fun u hu => h u (hu.trans hs)

/-- Text behind an occurrence makes no other one earlier. -/
theorem leftmost_append_iff :
    Leftmost needle before (before ++ (needle ++ t)) ↔ Leftmost needle before (before ++ needle) := by
  constructor
  · intro h
    exact h.of_prefix ⟨t, List.append_assoc _ _ _⟩
  · intro h
    have hfirst : cut? needle (before ++ needle) = some (before, []) :=
      cut?_eq_some_iff.2 ⟨by rw [List.append_nil], h⟩
    have hmore := leftmost_of_cut? (cut?_append hfirst t)
    rwa [List.append_assoc] at hmore

/-- What is behind another occurrence is behind the first one. -/
theorem suffix_of_cut? (h : cut? needle s = some (before, rest)) {u v : List Char}
    (hs : s = u ++ (needle ++ v)) : v <:+ rest := by
  obtain ⟨heq, hfirst⟩ := cut?_eq_some_iff.1 h
  have hle := hfirst u ⟨v, by rw [List.append_assoc, hs]⟩
  have hv : v <:+ s := ⟨u ++ needle, by rw [List.append_assoc, hs]⟩
  have hrest : rest <:+ s := ⟨before ++ needle, by rw [List.append_assoc, heq]⟩
  apply List.suffix_of_suffix_length_le hv hrest
  have hlength := congrArg List.length (heq.symm.trans hs)
  simp only [List.length_append] at hlength
  omega

/-- What starts a text starts it before a character that it does not hold. -/
theorem prefix_of_prefix_append (hc : c ∉ needle) (h : needle <+: s ++ c :: t) : needle <+: s := by
  refine List.prefix_of_prefix_length_le h (List.prefix_append s _) (Nat.le_of_not_lt fun hlt => ?_)
  have hlonger : s ++ [c] <+: needle := by
    refine List.prefix_of_prefix_length_le ⟨t, by simp⟩ h ?_
    rw [List.length_append, List.length_singleton]
    exact hlt
  exact hc (hlonger.subset (by simp))

/-- What a text does not hold stands nowhere before a character that it does not hold. -/
theorem leftmost_of_not_infix (hc : c ∉ needle) (h : ¬ needle <:+: s) :
    Leftmost needle s (s ++ c :: t) := by
  induction s with
  | nil => exact fun u _ => Nat.zero_le _
  | cons e s ih =>
    rw [List.infix_cons_iff, not_or] at h
    rintro (_ | ⟨f, u⟩) hu
    · exact absurd (prefix_of_prefix_append (s := e :: s) hc hu) h.1
    · rw [List.cons_append, List.cons_append, List.cons_prefix_cons] at hu
      exact Nat.succ_le_succ (ih h.2 u hu.2)

/-- What a text holds it holds before a character or behind it, unless it holds that character. -/
theorem infix_of_infix_append (hc : c ∉ needle) (h : needle <:+: s ++ c :: t) :
    needle <:+: s ∨ needle <:+: t := by
  induction s with
  | nil =>
    rcases List.infix_cons_iff.1 h with hprefix | hinfix
    · have hnil := prefix_of_prefix_append (s := []) hc hprefix
      exact .inl hnil.isInfix
    · exact .inr hinfix
  | cons d s ih =>
    rcases List.infix_cons_iff.1 h with hprefix | hinfix
    · exact .inl (prefix_of_prefix_append (s := d :: s) hc hprefix).isInfix
    · exact (ih hinfix).imp_left fun h => h.trans (List.suffix_cons d s).isInfix

/-! ## Words -/

/-- The text has no white space. -/
def IsWord (s : List Char) : Prop := ∀ c ∈ s, isSpace c = false

-- The characters of the text are tried, not all characters.
instance (s : List Char) : Decidable (IsWord s) := List.decidableBAll _ s

theorem after?_append_space (hword : IsWord needle) (hc : isSpace c = true) :
    after? needle (s ++ c :: t) = (after? needle s).map (· ++ c :: t) := by
  induction needle generalizing s with
  | nil => simp
  | cons n ns ih =>
    have hns : IsWord ns := fun d hd => hword d (List.mem_cons_of_mem n hd)
    cases s with
    | nil =>
      have hne : n ≠ c := by
        rintro rfl
        rw [hword n List.mem_cons_self] at hc
        cases hc
      simp [after?, hne]
    | cons d s =>
      rw [List.cons_append, after?, after?]
      split
      · exact ih hns
      · rfl

/-- A search that fails up to white space goes on behind it. -/
theorem cut?_append_space (hword : IsWord needle) (hne : needle ≠ []) (hc : isSpace c = true)
    (hs : cut? needle s = none) :
    cut? needle (s ++ c :: t) = (cut? needle t).map fun p => (s ++ c :: p.1, p.2) := by
  induction s with
  | nil =>
    have hafter : after? needle (c :: t) = none := by
      have h := after?_append_space (s := []) (t := t) hword hc
      obtain ⟨n, ns, rfl⟩ := List.exists_cons_of_ne_nil hne
      simpa [after?] using h
    rw [List.nil_append, cut?, hafter]
    rfl
  | cons d s ih =>
    rw [cut?] at hs
    cases hafter : after? needle (d :: s) with
    | some r => simp [hafter] at hs
    | none =>
      simp only [hafter, Option.map_eq_none_iff] at hs
      have hmore : after? needle (d :: (s ++ c :: t)) = none := by
        rw [← List.cons_append, after?_append_space hword hc, hafter]
        rfl
      rw [List.cons_append, cut?, hmore, ih hs]
      cases cut? needle t <;> rfl

/-! ## Trimming -/

theorem trimStart_append_blank {w : List Char} (hw : isBlank w = true) (s : List Char) :
    trimStart (w ++ s) = trimStart s :=
  List.dropWhile_append_of_pos (List.all_eq_true.1 hw)

theorem trimStart_eq_nil_iff : trimStart s = [] ↔ isBlank s = true := by
  induction s with
  | nil => simp [trimStart, isBlank]
  | cons c s ih =>
    rw [isBlank_cons]
    cases hc : isSpace c with
    | true => rw [trimStart_cons_space s hc, ih, Bool.true_and]
    | false => simp [trimStart_of_not_space s hc]

theorem trimEnd_eq_nil_iff : trimEnd s = [] ↔ isBlank s = true := by
  have h := trimStart_eq_nil_iff (s := s.reverse)
  rw [isBlank, List.all_reverse] at h
  rw [trimEnd, List.reverse_eq_nil_iff]
  exact h

/-- Only the text that trimming leaves of the end matters, unless this is nothing. -/
theorem trimEnd_append (s t : List Char) :
    trimEnd (s ++ t) = if isBlank t then trimEnd s else s ++ trimEnd t := by
  unfold trimEnd
  rw [List.reverse_append, List.dropWhile_append]
  have hempty : (t.reverse.dropWhile isSpace).isEmpty = isBlank t := by
    rw [Bool.eq_iff_iff, List.isEmpty_iff, ← trimEnd_eq_nil_iff, trimEnd, List.reverse_eq_nil_iff]
  rw [hempty]
  split
  · rfl
  · rw [List.reverse_append, List.reverse_reverse]

theorem trimEnd_concat (hc : isSpace c = false) (s : List Char) : trimEnd (s ++ [c]) = s ++ [c] := by
  have hlast : trimEnd [c] = [c] := by simp [trimEnd, hc]
  rw [trimEnd_append, if_neg (by simp [isBlank, hc]), hlast]

/-- Trimming the end of a text leaves its first character unless that is white space. -/
theorem trimEnd_cons (hc : isSpace c = false) (s : List Char) : trimEnd (c :: s) = c :: trimEnd s := by
  rw [← List.singleton_append, trimEnd_append]
  split
  · next h => rw [trimEnd_eq_nil_iff.2 h]; exact trimEnd_concat hc []
  · rfl

/-- A text that is trimmed at its start starts with no white space. -/
theorem isSpace_of_trimStart (h : trimStart s = c :: t) : isSpace c = false := by
  have hhead := List.head?_dropWhile_not isSpace s
  rw [← trimStart, h] at hhead
  simpa using hhead

/-- A text that is trimmed at its end ends in no white space. -/
theorem isSpace_of_trimEnd (h : trimEnd s = t ++ [c]) : isSpace c = false := by
  refine isSpace_of_trimStart (s := s.reverse) (t := t.reverse) ?_
  rw [trimEnd, List.reverse_eq_iff] at h
  rw [trimStart, h, List.reverse_concat]

theorem isSpace_of_trim (h : trim s = c :: t) : isSpace c = false := by
  cases hstart : trimStart s with
  | nil => simp [trim, hstart, trimEnd] at h
  | cons d u =>
    have hd := isSpace_of_trimStart hstart
    rw [trim, hstart, trimEnd_cons hd] at h
    exact (List.cons.inj h).1 ▸ hd

@[simp] theorem trimEnd_trimEnd (s : List Char) : trimEnd (trimEnd s) = trimEnd s := by
  rcases List.eq_nil_or_concat (trimEnd s) with hnil | ⟨t, c, hlast⟩
  · rw [hnil]
    rfl
  · rw [List.concat_eq_append] at hlast
    rw [hlast, trimEnd_concat (isSpace_of_trimEnd hlast)]

@[simp] theorem trimEnd_trim (s : List Char) : trimEnd (trim s) = trim s := trimEnd_trimEnd _

theorem trim_eq_nil_iff : trim s = [] ↔ isBlank s = true := by
  rw [trim, trimEnd_eq_nil_iff, ← trimStart_eq_nil_iff, ← trimStart_eq_nil_iff]
  cases hstart : trimStart s with
  | nil => simp [trimStart]
  | cons c t => rw [trimStart_of_not_space t (isSpace_of_trimStart hstart)]

@[simp] theorem isBlank_trim (s : List Char) : isBlank (trim s) = isBlank s := by
  rw [Bool.eq_iff_iff, ← trimEnd_eq_nil_iff, trimEnd_trim, trim_eq_nil_iff]

/-- Trimming the start of a text as well leaves its last character. -/
theorem getLast?_trim (s : List Char) : (trim s).getLast? = (trimEnd s).getLast? := by
  obtain ⟨w, hw, hs⟩ := exists_eq_append_trimStart s
  have hend : trimEnd s = if isBlank (trimStart s) then trimEnd w else w ++ trim s :=
    (congrArg trimEnd hs).trans (trimEnd_append w _)
  rw [hend]
  split
  · next h => rw [trimEnd_eq_nil_iff.2 hw, trim, trimEnd_eq_nil_iff.2 h]
  · next h =>
    have hne : trim s ≠ [] := fun hnil => h (trimEnd_eq_nil_iff.1 hnil)
    rw [List.getLast?_append, List.getLast?_eq_some_getLast hne, Option.some_or]

/-! ## What trimming leaves -/

/-- The text starts with no white space. -/
def NoSpaceFirst (s : List Char) : Prop := ∀ c ∈ s.head?, isSpace c = false

/-- The text ends in no white space. -/
def NoSpaceLast (s : List Char) : Prop := ∀ c ∈ s.getLast?, isSpace c = false

theorem noSpaceFirst_trimStart (s : List Char) : NoSpaceFirst (trimStart s) := by
  intro c hc
  obtain ⟨t, ht⟩ := List.head?_eq_some_iff.1 hc
  exact isSpace_of_trimStart ht

theorem noSpaceLast_trimEnd (s : List Char) : NoSpaceLast (trimEnd s) := by
  intro c hc
  obtain ⟨t, ht⟩ := List.getLast?_eq_some_iff.1 hc
  exact isSpace_of_trimEnd ht

theorem NoSpaceFirst.trimStart_eq (h : NoSpaceFirst s) : trimStart s = s := by
  cases s with
  | nil => rfl
  | cons c s => exact trimStart_of_not_space s (h c rfl)

theorem NoSpaceLast.trimEnd_eq (h : NoSpaceLast s) : trimEnd s = s := by
  rcases List.eq_nil_or_concat s with rfl | ⟨t, c, rfl⟩
  · rfl
  · rw [List.concat_eq_append] at h ⊢
    exact trimEnd_concat (h c (by simp)) t

/-- Trimming the end of a text leaves its start. -/
theorem NoSpaceFirst.trimEnd (h : NoSpaceFirst s) : NoSpaceFirst (trimEnd s) := by
  cases s with
  | nil => exact h
  | cons c s =>
    have hc := h c rfl
    rw [trimEnd_cons hc]
    intro e he
    obtain rfl : c = e := by simpa using he
    exact hc

/-- Trimming the start of a text takes white space away, as much as there is. -/
theorem trimStart_eq_iff : trimStart s = kept ↔
    ∃ v, s = v ++ kept ∧ isBlank v = true ∧ NoSpaceFirst kept := by
  constructor
  · rintro rfl
    obtain ⟨v, hv, hs⟩ := exists_eq_append_trimStart s
    exact ⟨v, hs, hv, noSpaceFirst_trimStart s⟩
  · rintro ⟨v, rfl, hv, hkept⟩
    rw [trimStart_append_blank hv, hkept.trimStart_eq]

theorem exists_eq_trimEnd_append (s : List Char) : ∃ w, isBlank w = true ∧ s = trimEnd s ++ w := by
  refine ⟨(s.reverse.takeWhile isSpace).reverse, by simp [isBlank, List.all_takeWhile], ?_⟩
  rw [trimEnd, ← List.reverse_append, List.takeWhile_append_dropWhile, List.reverse_reverse]

/-- Trimming the end of a text takes white space away, as much as there is. -/
theorem trimEnd_eq_iff : trimEnd s = kept ↔
    ∃ w, s = kept ++ w ∧ isBlank w = true ∧ NoSpaceLast kept := by
  constructor
  · rintro rfl
    obtain ⟨w, hw, hs⟩ := exists_eq_trimEnd_append s
    exact ⟨w, hs, hw, noSpaceLast_trimEnd s⟩
  · rintro ⟨w, rfl, hw, hkept⟩
    rw [trimEnd_append, if_pos hw, hkept.trimEnd_eq]

/-- Trimming a text takes white space away at both ends. -/
theorem trim_eq_iff : trim s = kept ↔ ∃ v w, s = v ++ (kept ++ w) ∧ isBlank v = true ∧
    isBlank w = true ∧ NoSpaceFirst kept ∧ NoSpaceLast kept := by
  constructor
  · rintro rfl
    obtain ⟨v, hs, hv, hfirst⟩ := trimStart_eq_iff.1 (rfl : trimStart s = _)
    obtain ⟨w, hw, hend⟩ := exists_eq_trimEnd_append (trimStart s)
    exact ⟨v, w, by rw [trim, ← hend, ← hs], hv, hw, hfirst.trimEnd, noSpaceLast_trimEnd _⟩
  · rintro ⟨v, w, rfl, hv, hw, hfirst, hlast⟩
    rw [trim, trimStart_append_blank hv]
    cases kept with
    | nil =>
      rw [List.nil_append, trimStart_eq_nil_iff.2 hw]
      rfl
    | cons c kept =>
      rw [List.cons_append, trimStart_of_not_space _ (hfirst c rfl), ← List.cons_append]
      exact trimEnd_eq_iff.2 ⟨w, rfl, hw, hlast⟩

/-! ## Tight texts -/

/-- The text is not empty and has no white space at its ends. -/
def Tight (s : List Char) : Prop :=
  (∃ c t, s = c :: t ∧ isSpace c = false) ∧ ∃ t c, s = t ++ [c] ∧ isSpace c = false

theorem Tight.ne_nil (h : Tight s) : s ≠ [] := by
  obtain ⟨⟨c, t, rfl, -⟩, -⟩ := h
  exact List.cons_ne_nil c t

/-- The end of one text and the start of another one. -/
theorem Tight.append (hs : ∃ c t, s = c :: t ∧ isSpace c = false) (ht : Tight t) : Tight (s ++ t) := by
  obtain ⟨c, s', rfl, hc⟩ := hs
  obtain ⟨-, t', d, rfl, hd⟩ := ht
  exact ⟨⟨c, s' ++ (t' ++ [d]), rfl, hc⟩, ⟨c :: s' ++ t', d, by simp, hd⟩⟩

/-- Trimming finds a text between white space. -/
theorem Tight.trim_padded (h : Tight s) {v w : List Char} (hv : isBlank v = true)
    (hw : isBlank w = true) : trim (v ++ (s ++ w)) = s := by
  obtain ⟨⟨c, t, hs, hc⟩, ⟨t', d, hs', hd⟩⟩ := h
  have hstart : trimStart (v ++ (s ++ w)) = s ++ w := by
    rw [trimStart_append_blank hv, hs, List.cons_append, trimStart_of_not_space _ hc]
  rw [trim, hstart, trimEnd_append, if_pos hw, hs', trimEnd_concat hd]

theorem Tight.trim_eq (h : Tight s) : trim s = s := by
  have hpadded := h.trim_padded (v := []) (w := []) rfl rfl
  simpa using hpadded

/-- A text is tight if trimming leaves something, and leaves it as it is. -/
theorem tight_iff : Tight s ↔ s ≠ [] ∧ trim s = s := by
  refine ⟨fun h => ⟨h.ne_nil, h.trim_eq⟩, fun ⟨hne, htrim⟩ => ?_⟩
  obtain ⟨c, t, hc⟩ := List.exists_cons_of_ne_nil hne
  obtain ⟨u, d, hd⟩ := (List.eq_nil_or_concat s).resolve_left hne
  rw [List.concat_eq_append] at hd
  exact ⟨⟨c, t, hc, isSpace_of_trim (htrim.trans hc)⟩, u, d, hd, isSpace_of_trimEnd (htrim.trans hd)⟩

end Stencil.Text
