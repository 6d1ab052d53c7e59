import Stencil.Html.Escape

/-!
# The characters of written texts

Which characters the texts of numbers and the escaped texts are made of.

* `Text.Each P s` says that all characters of `s` have `P`.
* `Layout.each_text` is the rule for number texts: digits, signs, points, and what the layout adds.
* `Escape.each_html`, `Escape.each_script` and `Escape.each_style` are the rules for the escapes, each
  from one lemma about a single character.
* `Value.each_written` puts them together: what an action of an escaping template writes holds no
  `<`, unless the value is safe text.
-/

namespace Stencil

namespace Text

/-- All characters of a text have a property. -/
def Each (P : Char → Prop) (s : String) : Prop := ∀ c ∈ s.toList, P c

variable {P : Char → Prop} {s t : String}

theorem each_empty : Each P "" := fun _ h => nomatch h

@[simp] theorem each_append : Each P (s ++ t) ↔ Each P s ∧ Each P t := by
  simp [Each, or_imp, forall_and]

@[simp] theorem each_ofList {l : List Char} : Each P (String.ofList l) ↔ ∀ c ∈ l, P c := by
  simp [Each]

/-- A text that is written one character at a time. -/
theorem each_flatMap {l : List Char} {f : Char → List Char} (h : ∀ c, ∀ d ∈ f c, P d) :
    Each P (String.ofList (l.flatMap f)) := by
  rw [each_ofList]
  intro d hd
  obtain ⟨c, -, hc⟩ := List.mem_flatMap.1 hd
  exact h c d hc

end Text

open Text

/-! ## Numbers -/

theorem each_toString_nat {P : Char → Prop} (hd : ∀ c : Char, c.isDigit = true → P c) (n : Nat) :
    Each P (toString n) := by
  intro c hc
  rw [Nat.toString_eq_ofList_toDigits, String.toList_ofList] at hc
  exact hd c (Nat.isDigit_of_mem_toDigits (by omega) (by omega) hc)

theorem each_toString_int {P : Char → Prop} (hd : ∀ c : Char, c.isDigit = true → P c) (hm : P '-')
    (n : Int) : Each P (toString n) := by
  cases n with
  | ofNat n => exact each_toString_nat hd n
  | negSucc n =>
    change Each P ("-" ++ toString (n + 1))
    refine each_append.2 ⟨?_, each_toString_nat hd (n + 1)⟩
    simpa [Each] using hm

namespace Layout

variable {P : Char → Prop} (hd : ∀ c : Char, c.isDigit = true → P c)

include hd

theorem each_zeros (n : Nat) : Each P (zeros n) := by
  rw [zeros, each_ofList]
  intro c hc
  exact hd c (by rw [(List.mem_replicate.1 hc).2]; rfl)

theorem each_fixed (hpoint : P '.') {wholeMark : String} (hw : Each P wholeMark) {ds : List Char}
    (hds : ∀ c ∈ ds, P c) (p : Int) : Each P (fixed wholeMark ds p) := by
  have hdot : Each P "." := by simpa [Each] using hpoint
  have hzero : Each P "0." := by simpa [Each] using ⟨hd '0' rfl, hpoint⟩
  unfold fixed
  split
  · simp only [each_append, each_ofList]
    exact ⟨⟨hds, each_zeros hd _⟩, hw⟩
  · simp only
    split
    · simp only [each_append, each_ofList]
      exact ⟨⟨fun c hc => hds c (List.mem_of_mem_take hc), hdot⟩,
        fun c hc => hds c (List.mem_of_mem_drop hc)⟩
    · simp only [each_append, each_ofList]
      exact ⟨⟨hzero, each_zeros hd _⟩, hds⟩

theorem each_scientific (hm : P '-') (hpoint : P '.') (he : P 'e') {exponentPlus : String}
    (hp : Each P exponentPlus) {ds : List Char} (hds : ∀ c ∈ ds, P c) (e : Int) :
    Each P (scientific exponentPlus ds e) := by
  have hdot : Each P (if ds.length ≤ 1 then "" else ".") := by
    split
    · exact each_empty
    · simpa [Each] using hpoint
  have hmark : Each P (if 0 ≤ e then exponentPlus else "") := by
    split
    · exact hp
    · exact each_empty
  have hexp : Each P "e" := by simpa [Each] using he
  simp only [scientific, each_append, each_ofList]
  exact ⟨⟨⟨⟨⟨fun c hc => hds c (List.mem_of_mem_take hc), hdot⟩,
    fun c hc => hds c (List.mem_of_mem_drop hc)⟩, hexp⟩, hmark⟩, each_toString_int hd hm e⟩

/-- **The characters of a number text** are digits, signs, the point, the mark of the exponent, and
what its layout adds. -/
theorem each_text (hm : P '-') (hpoint : P '.') (he : P 'e') (l : Layout) (hw : Each P l.wholeMark)
    (hp : Each P l.exponentPlus) (hi : ∀ b, Each P (l.infinite b)) (hn : Each P l.notANumber)
    (x : Binary64) : Each P (l.text x) := by
  have hmag : Each P (l.magnitude x) := by
    have hds : ∀ n, ∀ c ∈ Nat.toDigits 10 n, P c := fun n c hc =>
      hd c (Nat.isDigit_of_mem_toDigits (by omega) (by omega) hc)
    unfold magnitude
    split
    · refine each_append.2 ⟨?_, hw⟩
      simpa [Each] using hd '0' rfl
    · simp only
      split
      · exact each_fixed hd hpoint hw (hds _) _
      · exact each_scientific hd hm hpoint he hp (hds _) _
  unfold text
  split
  · exact hn
  · split
    · exact hi _
    · refine each_append.2 ⟨?_, hmag⟩
      split
      · simpa [Each] using hm
      · exact each_empty

end Layout

/-! ## Escapes -/

namespace Escape

/-- No character of one list is in another. -/
theorem not_mem_of_all {xs ys : List Char} (hall : (xs.all fun c => !ys.contains c) = true) {c : Char}
    (h : c ∈ xs) : c ∉ ys := by
  have hc := List.all_eq_true.1 hall c h
  simpa using hc

/-- A character that the escape of the body writes is none of those that it replaces. -/
theorem mem_htmlChar {c d : Char} (h : d ∈ htmlChar c) : d ∉ ['<', '>', '"', '\'', '/'] := by
  unfold htmlChar at h
  split at h
  · exact not_mem_of_all rfl h
  split at h
  · exact not_mem_of_all rfl h
  split at h
  · exact not_mem_of_all rfl h
  split at h
  · exact not_mem_of_all rfl h
  split at h
  · exact not_mem_of_all rfl h
  split at h
  · exact not_mem_of_all rfl h
  · obtain rfl := List.mem_singleton.1 h
    simp [*]

theorem each_html (s : String) : Each (· ∉ ['<', '>', '"', '\'', '/']) (html s) :=
  each_flatMap fun _ _ => mem_htmlChar

/-- A character that the escape of scripts writes is none of those that it replaces. -/
theorem mem_scriptChar {c d : Char} (h : d ∈ scriptChar c) : d ∉ ['<', '>', '&', '\''] := by
  unfold scriptChar at h
  split at h
  · exact not_mem_of_all rfl h
  split at h
  · exact not_mem_of_all rfl h
  split at h
  · exact not_mem_of_all rfl h
  split at h
  · exact not_mem_of_all rfl h
  · obtain rfl := List.mem_singleton.1 h
    simp [*]

theorem each_script (s : String) : Each (· ∉ ['<', '>', '&', '\'']) (script s) :=
  each_flatMap fun _ _ => mem_scriptChar

theorem each_style (s : String) : Each (isStyleSafe · = true) (style s) := by
  unfold style
  split
  · exact List.all_eq_true.1 ‹_›
  · simp [Each, unsafeMark, isStyleSafe]

end Escape

namespace Value

/-- The texts of numbers and truth values, and of what is missing, are plain: letters, digits, signs
and the point. -/
theorem each_display_of_isPlainInBody {P : Char → Prop} (ha : ∀ c : Char, c.isAlphanum = true → P c)
    (hs : ∀ c ∈ ['-', '+', '.'], P c) {v : Value} (hv : v.kind.isPlainInBody = true) :
    Each P v.display := by
  have hd : ∀ c : Char, c.isDigit = true → P c := fun c hc => ha c (by simp [Char.isAlphanum, hc])
  have hword : ∀ s : String, s.toList.all Char.isAlphanum = true → Each P s := fun s hs c hc =>
    ha c (List.all_eq_true.1 hs c hc)
  cases v with
  | undefined => exact each_empty
  | none => exact each_empty
  | bool b => cases b <;> exact hword _ (by decide)
  | int n => exact each_toString_int hd (hs '-' (by simp)) n
  | float x =>
    change Each P (floatText x)
    unfold floatText
    split
    · have hinf : Each P "Inf" := hword _ (by decide)
      split
      · change Each P ("-" ++ "Inf")
        exact each_append.2 ⟨by simpa [Each] using hs '-' (by simp), hinf⟩
      · change Each P ("+" ++ "Inf")
        exact each_append.2 ⟨by simpa [Each] using hs '+' (by simp), hinf⟩
    · refine Layout.each_text hd (hs '-' (by simp)) (hs '.' (by simp)) (ha 'e' (by decide)) _
        each_empty each_empty (fun b => ?_) (hword _ (by decide)) x
      cases b with
      | false => exact hword _ (by decide)
      | true =>
        change Each P ("-" ++ "inf")
        exact each_append.2 ⟨by simpa [Each] using hs '-' (by simp), hword _ (by decide)⟩
  | string s safe => cases hv
  | list items => cases hv
  | map entries => cases hv
  | fallback template => cases hv

theorem isPlainInBody_of_isPlainInStyle {k : Kind} (h : k.isPlainInStyle = true) :
    k.isPlainInBody = true := by
  cases k <;> first | rfl | cases h

/-- **What an action writes of a value that is not safe text holds no `<`**, in every context. -/
theorem each_written {v : Value} (hv : v.isSafe = false) (context : HtmlContext) :
    Each (· ≠ '<') (v.written .html context) := by
  have hplain : v.kind.isPlainInBody = true → Each (· ≠ '<') v.display :=
    each_display_of_isPlainInBody (fun c hc h => by subst h; exact absurd hc (by decide))
      (by simp)
  simp only [written, hv, Bool.false_eq_true, if_false]
  cases context with
  | body =>
    simp only [escaped]
    split
    · exact hplain ‹_›
    · intro c hc h
      exact Escape.each_html v.display c hc (by simp [h])
  | script =>
    simp only [escaped]
    intro c hc h
    exact Escape.each_script v.toJson.text c hc (by simp [h])
  | style =>
    simp only [escaped]
    split
    · exact hplain (isPlainInBody_of_isPlainInStyle ‹_›)
    · intro c hc h
      subst h
      exact absurd (Escape.each_style v.display '<' hc) (by decide)

end Value

end Stencil
