import Stencil.Proofs.Escape.Characters
import Stencil.Text.Search

/-!
# Entities

The escape of the body writes six characters as entities, which can be told from the text around them
and replaced by their characters.

* `Escape.entities` lists them. None of them starts another one, so `Escape.entity?_eq_some_iff` says what
  a text starts with.
* `Escape.unescape` replaces the entities of a text from left to right, and `Escape.unescape_html` says
  that this undoes the escape.
* `Escape.Marked` are the texts whose ampersands start entities; escaped texts are: `Escape.marked_html`.
-/

namespace Stencil.Escape

/-- The entities and the characters that they stand for. -/
def entities : List (List Char × Char) :=
  [("&lt;".toList, '<'), ("&gt;".toList, '>'), ("&amp;".toList, '&'), ("&quot;".toList, '"'),
    ("&#x27;".toList, '\''), ("&#x2f;".toList, '/')]

/-- The character of the entity that a text starts with, and what is behind the entity. -/
def entity? (s : List Char) : Option (Char × List Char) :=
  entities.findSome? fun e => (Text.after? e.1 s).map (e.2, ·)

variable {s rest e : List Char} {c : Char}

theorem prefix_free : ∀ p ∈ entities, ∀ q ∈ entities, p.1 <+: q.1 → p = q := by decide

theorem eq_ampersand_cons : ∀ p ∈ entities, p.1 = '&' :: p.1.tail := by decide

theorem exists_of_entity? (h : entity? s = some (c, rest)) :
    ∃ e, (e, c) ∈ entities ∧ s = e ++ rest := by
  obtain ⟨p, hp, hafter⟩ := List.exists_of_findSome?_eq_some h
  obtain ⟨r, hr, heq⟩ := Option.map_eq_some_iff.1 hafter
  obtain ⟨rfl, rfl⟩ := Prod.mk.inj heq
  exact ⟨p.1, hp, Text.after?_eq_some_iff.1 hr⟩

/-- **What a text starts with** is one entity at most. -/
theorem entity?_eq_some_iff :
    entity? s = some (c, rest) ↔ ∃ e, (e, c) ∈ entities ∧ s = e ++ rest := by
  refine ⟨exists_of_entity?, ?_⟩
  rintro ⟨e, he, rfl⟩
  have hsome : (entity? (e ++ rest)).isSome := by
    unfold entity?
    rw [List.isSome_findSome?]
    refine List.any_eq_true.2 ⟨(e, c), he, ?_⟩
    simp [Text.after?_eq_some_iff.2 rfl]
  obtain ⟨⟨d, r⟩, hfound⟩ := Option.isSome_iff_exists.1 hsome
  obtain ⟨f, hf, heq⟩ := exists_of_entity? hfound
  have hone : (e, c) = (f, d) := by
    rcases List.prefix_or_prefix_of_prefix ⟨rest, rfl⟩ ⟨r, heq.symm⟩ with h | h
    · exact prefix_free _ he _ hf h
    · exact (prefix_free _ hf _ he h).symm
  obtain ⟨rfl, rfl⟩ := Prod.mk.inj hone
  rw [hfound, List.append_cancel_left heq]

theorem entity?_length_le {a : Char} (h : entity? (a :: s) = some (c, rest)) :
    rest.length ≤ s.length := by
  obtain ⟨e, he, heq⟩ := exists_of_entity? h
  have hcons : e = '&' :: e.tail := eq_ampersand_cons _ he
  rw [hcons, List.cons_append] at heq
  rw [(List.cons.inj heq).2, List.length_append]
  omega

/-- A text with its entities replaced by their characters, from left to right. -/
def unescape : List Char → List Char
  | [] => []
  | a :: s =>
    match h : entity? (a :: s) with
    | some (c, rest) =>
      have := entity?_length_le h
      c :: unescape rest
    | none => a :: unescape s
  termination_by s => s.length

theorem unescape_of_some {a : Char} (h : entity? (a :: s) = some (c, rest)) :
    unescape (a :: s) = c :: unescape rest := by
  rw [unescape]
  split <;> simp_all

theorem unescape_of_none {a : Char} (h : entity? (a :: s) = none) :
    unescape (a :: s) = a :: unescape s := by
  rw [unescape]
  split <;> simp_all

/-! ## Escaped texts -/

/-- A character is written as its entity, or as it is. -/
theorem htmlChar_cases (c : Char) :
    (htmlChar c, c) ∈ entities ∨ htmlChar c = [c] ∧ c ≠ '&' := by
  by_cases h : c ∈ entities.map Prod.snd
  · have hall : ∀ p ∈ entities, (htmlChar p.2, p.2) ∈ entities := by decide
    obtain ⟨p, hp, rfl⟩ := List.mem_map.1 h
    exact .inl (hall p hp)
  · simp only [entities, List.map_cons, List.map_nil, List.mem_cons, List.not_mem_nil, or_false,
      not_or] at h
    exact .inr ⟨by simp [htmlChar, h], h.2.2.1⟩

theorem entity?_eq_none (h : c ≠ '&') (s : List Char) : entity? (c :: s) = none := by
  refine Option.eq_none_iff_forall_ne_some.2 fun ⟨d, rest⟩ hsome => ?_
  obtain ⟨e, he, heq⟩ := exists_of_entity? hsome
  have hcons : e = '&' :: e.tail := eq_ampersand_cons _ he
  rw [hcons] at heq
  exact h (List.cons.inj heq).1

theorem unescape_htmlChar (c : Char) (s : List Char) : unescape (htmlChar c ++ s) = c :: unescape s := by
  rcases htmlChar_cases c with he | ⟨hc, hne⟩
  · have hfound : entity? (htmlChar c ++ s) = some (c, s) := entity?_eq_some_iff.2 ⟨_, he, rfl⟩
    have hcons : htmlChar c = '&' :: (htmlChar c).tail := eq_ampersand_cons _ he
    rw [hcons, List.cons_append] at hfound ⊢
    exact unescape_of_some hfound
  · rw [hc, List.singleton_append]
    exact unescape_of_none (entity?_eq_none hne s)

/-- **Replacing the entities undoes the escape.** -/
theorem unescape_html (s : String) : unescape (html s).toList = s.toList := by
  rw [html, String.toList_ofList]
  induction s.toList with
  | nil => rw [List.flatMap_nil, unescape]
  | cons c t ih => rw [List.flatMap_cons, unescape_htmlChar, ih]

/-- Every ampersand of a text starts an entity. -/
def Marked (s : String) : Prop :=
  ∀ u, '&' :: u <:+ s.toList → ∃ p ∈ entities, p.1 <+: '&' :: u

/-- A character that one text does not hold starts its suffixes in the text behind. -/
theorem suffix_of_not_mem {u t : List Char} (hc : c ∉ t) (h : c :: u <:+ t ++ s) : c :: u <:+ s := by
  induction t with
  | nil => exact h
  | cons a t ih =>
    rw [List.mem_cons, not_or] at hc
    rw [List.cons_append, List.suffix_cons_iff] at h
    rcases h with heq | h
    · exact absurd (List.cons.inj heq).1 hc.1
    · exact ih hc.2 h

/-- **Escaped texts have no other ampersands.** -/
theorem marked_html (s : String) : Marked (html s) := by
  rw [Marked, html, String.toList_ofList]
  intro u
  induction s.toList with
  | nil => exact fun hu => absurd (List.suffix_nil.1 hu) (by simp)
  | cons c t ih =>
    intro hu
    rw [List.flatMap_cons] at hu
    rcases htmlChar_cases c with he | ⟨hc, hne⟩
    · -- the only ampersand of an entity is its first character
      have hcons : htmlChar c = '&' :: (htmlChar c).tail := eq_ampersand_cons _ he
      have hone : ∀ p ∈ entities, '&' ∉ p.1.tail := by decide
      rw [hcons, List.cons_append, List.suffix_cons_iff] at hu
      rcases hu with heq | hu
      · refine ⟨_, he, t.flatMap htmlChar, ?_⟩
        rw [heq, ← List.cons_append, ← hcons]
      · exact ih (suffix_of_not_mem (hone _ he) hu)
    · rw [hc, List.singleton_append, List.suffix_cons_iff] at hu
      rcases hu with heq | hu
      · exact absurd (List.cons.inj heq).1.symm hne
      · exact ih hu

end Stencil.Escape
