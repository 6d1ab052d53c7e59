import Stencil.Function
import Stencil.Proofs.Entries
import Stencil.Proofs.Escape.Characters

/-!
# Safe texts in values

Safe text is written as it is, so an injection has to pass through one. A value is harmless if no safe
text in it, at any depth, holds a `<`.

* `Value.safeTexts` lists the safe texts in a value; data has none (`Value.safeTexts_ofJson`).
* Looking into a value finds no safe text that it does not hold: `Value.safeTexts_field`,
  `Value.safeTexts_item`, `Value.safeTexts_pairs`.
* `Value.Harmless.written` is what harmlessness is for: an action of an escaping template writes no `<`
  of a harmless value.
-/

namespace Stencil

namespace Value

open Text

/-! ## The safe texts of a value -/

mutual

/-- The safe texts in a value, at any depth. -/
def safeTexts : Value → List String
  | .string s safe => if safe then [s] else []
  | .list items => safeTextsOfItems items
  | .map entries => safeTextsOfEntries entries
  | .undefined | .none | .bool _ | .int _ | .float _ | .fallback _ => []

/-- The safe texts in the items of a list. -/
def safeTextsOfItems : List Value → List String
  | [] => []
  | v :: vs => safeTexts v ++ safeTextsOfItems vs

/-- The safe texts in the entries of a map. -/
def safeTextsOfEntries : List (String × Value) → List String
  | [] => []
  | (_, v) :: es => safeTexts v ++ safeTextsOfEntries es

end

theorem safeTexts_of_mem_items {v : Value} {items : List Value} (h : v ∈ items) :
    v.safeTexts ⊆ safeTextsOfItems items := by
  induction items with
  | nil => cases h
  | cons w ws ih =>
    rw [safeTextsOfItems]
    rcases List.mem_cons.1 h with rfl | h
    · exact List.subset_append_left _ _
    · exact List.Subset.trans (ih h) (List.subset_append_right _ _)

theorem safeTexts_of_mem_entries {k : String} {v : Value} {entries : List (String × Value)}
    (h : (k, v) ∈ entries) : v.safeTexts ⊆ safeTextsOfEntries entries := by
  induction entries with
  | nil => cases h
  | cons e es ih =>
    obtain ⟨k', w⟩ := e
    rw [safeTextsOfEntries]
    rcases List.mem_cons.1 h with h | h
    · cases h
      exact List.subset_append_left _ _
    · exact List.Subset.trans (ih h) (List.subset_append_right _ _)

theorem safeTextsOfEntries_eq_nil {entries : List (String × Value)}
    (h : ∀ e ∈ entries, e.2.safeTexts = []) : safeTextsOfEntries entries = [] := by
  induction entries with
  | nil => rfl
  | cons e es ih =>
    obtain ⟨hfirst, hrest⟩ := List.forall_mem_cons.1 h
    rw [safeTextsOfEntries, hfirst, ih hrest]
    rfl

theorem safeTexts_of_isSafe {s : String} {safe : Bool} (h : safe = true) :
    s ∈ (Value.string s safe).safeTexts := by
  simp [safeTexts, h]

mutual

/-- Data holds no safe text. -/
theorem safeTexts_ofJson : ∀ j : Json, (ofJson j).safeTexts = []
  | .null | .bool _ | .float _ | .string _ => by simp [ofJson, safeTexts, text]
  | .int n => by
    rw [ofJson, ofInt]
    split <;> rfl
  | .array items => by simpa [ofJson, safeTexts] using safeTexts_itemsOfJson items
  | .object entries => by
    rw [ofJson, safeTexts]
    exact safeTextsOfEntries_eq_nil fun e he => safeTexts_entriesOfJson entries e (Table.mem_ofList he)

theorem safeTexts_itemsOfJson : ∀ js : List Json, safeTextsOfItems (itemsOfJson js) = []
  | [] => rfl
  | j :: js => by
    simp [itemsOfJson, safeTextsOfItems, safeTexts_ofJson j, safeTexts_itemsOfJson js]

theorem safeTexts_entriesOfJson :
    ∀ es : List (String × Json), ∀ e ∈ entriesOfJson es, e.2.safeTexts = []
  | [] => nofun
  | (_, j) :: es => List.forall_mem_cons.2 ⟨safeTexts_ofJson j, safeTexts_entriesOfJson es⟩

end

/-! ## Looking into values -/

theorem safeTexts_entry (name : String) (v : Value) : (v.entry name).safeTexts ⊆ v.safeTexts := by
  cases v with
  | map entries =>
    simp only [entry]
    cases h : Table.get? name entries with
    | some w => exact safeTexts_of_mem_entries (Table.mem_of_get? h)
    | none => exact List.nil_subset _
  | _ => exact List.nil_subset _

theorem safeTexts_field {name : String} {v w : Value} (h : v.field name = .ok w) :
    w.safeTexts ⊆ v.safeTexts := by
  cases v with
  | map entries =>
    cases h
    exact safeTexts_entry name _
  | undefined | none =>
    cases h
    exact List.nil_subset _
  | _ => cases h

theorem at?_mem {α : Type} {items : List α} {i : Int} {a : α} (h : at? items i = some a) :
    a ∈ items := by
  unfold at? at h
  split at h
  · exact List.mem_of_getElem? h
  · cases h

theorem safeTexts_item {v key w : Value} (h : v.item key = .ok w) : w.safeTexts ⊆ v.safeTexts := by
  unfold item at h
  split at h
  · split at h
    · next hi =>
      cases h
      exact safeTexts_of_mem_items (at?_mem hi)
    · cases h
  · split at h
    · cases h
      exact List.nil_subset _
    · cases h
  · cases h
    exact safeTexts_entry _ _
  · cases h
    exact List.nil_subset _
  · cases h
    exact List.nil_subset _
  · cases h

theorem snd_mem_of_mem_indexed {p : Value × Value} {items : List Value} :
    ∀ {i : Nat}, p ∈ indexed i items → p.1.safeTexts = [] ∧ p.2 ∈ items := by
  induction items with
  | nil => exact fun h => nomatch h
  | cons v vs ih =>
    intro i h
    rcases List.mem_cons.1 h with rfl | h
    · exact ⟨rfl, by simp⟩
    · exact (ih h).imp_right (List.mem_cons_of_mem _)

theorem safeTexts_pairs {v : Value} {ps : Pairs} (h : v.pairs = .ok ps) :
    ∀ p ∈ ps.toList, p.1.safeTexts = [] ∧ p.2.safeTexts ⊆ v.safeTexts := by
  intro p hp
  cases v with
  | list items =>
    cases h
    obtain ⟨hkey, hmem⟩ := snd_mem_of_mem_indexed hp
    exact ⟨hkey, safeTexts_of_mem_items hmem⟩
  | map entries =>
    cases h
    obtain ⟨⟨k, w⟩, he, rfl⟩ := List.mem_map.1 hp
    exact ⟨rfl, safeTexts_of_mem_entries ((Table.inOrder_perm entries).mem_iff.1 he)⟩
  | int n =>
    simp only [pairs] at h
    split at h
    · cases h
      obtain ⟨i, -, rfl⟩ := List.mem_map.1 hp
      exact ⟨rfl, List.nil_subset _⟩
    · cases h
  | undefined | none =>
    cases h
    cases hp
  | _ => cases h

/-! ## Harmless values -/

/-- No safe text in the value holds a `<`. -/
def Harmless (v : Value) : Prop := ∀ s ∈ v.safeTexts, Each (· ≠ '<') s

theorem Harmless.of_subset {v w : Value} (hv : v.Harmless) (h : w.safeTexts ⊆ v.safeTexts) :
    w.Harmless := fun s hs => hv s (h hs)

theorem harmless_of_eq_nil {v : Value} (h : v.safeTexts = []) : v.Harmless := by
  intro s hs
  rw [h] at hs
  cases hs

theorem harmless_text (s : String) : (text s).Harmless := harmless_of_eq_nil rfl

theorem harmless_safeText {s : String} (h : Each (· ≠ '<') s) : (safeText s).Harmless := by
  intro t ht
  simp only [safeText, safeTexts, if_true, List.mem_singleton] at ht
  exact ht ▸ h

/-- What an action of an escaping template writes of a harmless value holds no `<`. -/
theorem Harmless.written {v : Value} (hv : v.Harmless) (context : HtmlContext) :
    Each (· ≠ '<') (v.written .html context) := by
  by_cases hs : v.isSafe = true
  · cases v with
    | string s safe =>
      have hsafe : safe = true := hs
      subst hsafe
      exact hv s (safeTexts_of_isSafe rfl)
    | _ => cases hs
  · exact each_written (by simpa using hs) context

end Value

end Stencil
