import Stencil.Proofs.Json.Numbers

/-!
# JSON text is JSON

The text of every value is a text of the grammar of JSON. What it denotes is the value up to its numbers:
a floating point number may be written as an integer is, and what is no finite number is written as null.

* `Json.denotesString_escape` says that escaped texts denote what they were.
* `Json.exists_denotes` says that every text denotes a value.
-/

namespace Stencil.Json

variable {s t : List Char}

/-! ## Strings -/

theorem fourDigits_of_lt {n : Nat} (hn : n < 0x20) :
    FourDigits ['0', '0', hexDigit (n / 16 % 16), hexDigit (n % 16)] n := by
  have hvalue : ∀ n < 0x20,
      digitsValue? 16 ['0', '0', hexDigit (n / 16 % 16), hexDigit (n % 16)] = some n := by decide +kernel
  exact fourDigits_of_value rfl (hvalue n hn)

theorem DenotesString.escape (h : DenotesString s t) (c : Char) :
    DenotesString (Json.escape c ++ s) (c :: t) := by
  unfold Json.escape
  split
  · next hc =>
    simp only [Bool.or_eq_true, decide_eq_true_eq] at hc
    rcases hc with rfl | rfl
    · exact .letter (by decide) h
    · exact .letter (by decide) h
  next hc =>
  split
  · next hb => subst hb; exact .letter (by decide) h
  split
  · next hf => subst hf; exact .letter (by decide) h
  split
  · next hn => subst hn; exact .letter (by decide) h
  split
  · next hr => subst hr; exact .letter (by decide) h
  split
  · next ht => subst ht; exact .letter (by decide) h
  split
  · next hcontrol => exact .unit (fourDigits_of_lt hcontrol) h
  · next hcontrol =>
    simp only [Bool.or_eq_true, decide_eq_true_eq, not_or] at hc
    exact .char hc.1 hc.2 (by omega) h

theorem denotesString_escape (t : List Char) : DenotesString (t.flatMap Json.escape) t := by
  induction t with
  | nil => exact .nil
  | cons c t ih => rw [List.flatMap_cons]; exact ih.escape c

/-! ## Values -/

theorem itemChars_eq (js : List Json) : itemChars js = commas (js.map chars) := by
  induction js with
  | nil => rfl
  | cons j js ih =>
    cases js with
    | nil => simp [itemChars, commas]
    | cons k js => rw [itemChars, ih] <;> simp [commas]

theorem entryChars_eq (es : List (String × Json)) :
    entryChars es = commas (es.map fun e => stringChars e.1 ++ ':' :: chars e.2) := by
  induction es with
  | nil => rfl
  | cons e es ih =>
    cases es with
    | nil => simp [entryChars, commas]
    | cons f es =>
      rw [entryChars, ih] <;> simp [commas]

/-- A floating point number that is not finite is written as null. -/
theorem text_of_not_isFinite {x : Binary64} (hx : ¬ x.isFinite = true) : Layout.json.text x = "null" := by
  unfold Layout.text
  split
  · rfl
  · next hnumber =>
    have hbounded : x.isInfinite = true := by
      simp only [Binary64.isFinite, Binary64.isNaN, Binary64.isInfinite, decide_eq_true_eq] at hx hnumber ⊢
      omega
    rw [if_pos hbounded]
    rfl

mutual

/-- **The text of a value denotes a value.** -/
theorem exists_denotes : ∀ j : Json, ∃ i, Denotes (chars j) i
  | .null => ⟨_, .null⟩
  | .bool b => ⟨_, .bool b⟩
  | .int n => by
    have hn := numberText_intText n
    obtain ⟨i, hi⟩ := exists_number? hn
    exact ⟨i, .number hn hi⟩
  | .float x => by
    rw [chars]
    by_cases hx : x.isFinite = true
    · have htext := numberText_text hx
      obtain ⟨i, hi⟩ := exists_number? htext
      exact ⟨i, .number htext hi⟩
    · rw [text_of_not_isFinite hx]
      exact ⟨_, .null⟩
  | .string s => ⟨_, .string (denotesString_escape s.toList)⟩
  | .array js => by
    have hitems := exists_denotes_of_mem js
    choose! value hvalue using hitems
    let items := js.map fun j => (chars j, value j)
    have hdenotes : ∀ p ∈ items, Denotes p.1 p.2 := List.forall_mem_map.2 hvalue
    have htexts : items.map Prod.fst = js.map chars := by simp [items]
    rw [chars, itemChars_eq, ← htexts]
    exact ⟨_, .array hdenotes⟩
  | .object es => by
    have hentries := exists_denotes_of_mem_entries es
    choose! value hvalue using hentries
    let members := es.map fun e =>
      Member.mk (e.1.toList.flatMap Json.escape) e.1.toList (chars e.2) (value e)
    have hnames : ∀ m ∈ members, DenotesString m.nameText m.name :=
      List.forall_mem_map.2 fun e _ => denotesString_escape e.1.toList
    have hdenotes : ∀ m ∈ members, Denotes m.text m.value := List.forall_mem_map.2 hvalue
    have htexts : members.map Member.written = es.map fun e => stringChars e.1 ++ ':' :: chars e.2 := by
      simp [members, Member.written, stringChars]
    rw [chars, entryChars_eq, ← htexts]
    exact ⟨_, .object hnames hdenotes⟩

theorem exists_denotes_of_mem : ∀ js : List Json, ∀ j ∈ js, ∃ i, Denotes (chars j) i
  | [] => nofun
  | j :: js => List.forall_mem_cons.2 ⟨exists_denotes j, exists_denotes_of_mem js⟩

theorem exists_denotes_of_mem_entries : ∀ es : List (String × Json), ∀ e ∈ es,
    ∃ i, Denotes (chars e.2) i
  | [] => nofun
  | (_, j) :: es => List.forall_mem_cons.2 ⟨exists_denotes j, exists_denotes_of_mem_entries es⟩

end

end Stencil.Json
