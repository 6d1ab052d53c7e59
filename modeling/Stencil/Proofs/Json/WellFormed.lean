import Stencil.Json.Reader
import Stencil.Proofs.Entries

/-!
# Well formed JSON

A value that is read from a text holds no integer of more than 64 bits, and each of its objects is a
table.

* `Json.WellFormed` says so of a JSON value, at every depth.
* `Json.wellFormed_of_parse?` says so of what the reader gives: the tokens of numbers are well formed, and
  so is what is put together of well formed parts.
-/

namespace Stencil.Json

/-- All integers fit and all objects are tables. -/
inductive WellFormed : Json → Prop
  | null : WellFormed .null
  | bool (b : Bool) : WellFormed (.bool b)
  | int {n : Int} : fits n = true → WellFormed (.int n)
  | float (x : Binary64) : WellFormed (.float x)
  | string (s : String) : WellFormed (.string s)
  | array {items : List Json} : (∀ j ∈ items, WellFormed j) → WellFormed (.array items)
  | object {entries : List (String × Json)} : Table.Sorted entries →
    (∀ e ∈ entries, WellFormed e.2) → WellFormed (.object entries)

/-! ## Tokens -/

theorem wellFormed_of_number? {s : List Char} {j : Json} (h : number? s = some j) : j.WellFormed := by
  obtain ⟨d, -, h⟩ := Option.bind_eq_some_iff.1 h
  generalize (if d.negative then -(d.digits : Int) else d.digits) = n at h
  simp only at h
  split at h
  · next hint =>
    simp only [Bool.and_eq_true] at hint
    cases h
    exact .int hint.1.2
  · cases h
    exact .float _

/-- The value of a token is well formed, if it has one. -/
def Token.WellFormed (t : Token) : Prop := ∀ j, t = .atom j → j.WellFormed

theorem Token.wellFormed_atom {j : Json} (h : j.WellFormed) : (Token.atom j).WellFormed := by
  rintro _ ⟨⟩
  exact h

/-- A token in front of others. -/
theorem forall_mem_of_map_cons {t : Token} {rest : Option (List Token)} {ts : List Token}
    (h : rest.map (t :: ·) = some ts) (hrest : ∀ {us}, rest = some us → ∀ u ∈ us, u.WellFormed)
    (ht : t.WellFormed) : ∀ u ∈ ts, u.WellFormed := by
  obtain ⟨us, hus, rfl⟩ := Option.map_eq_some_iff.1 h
  exact List.forall_mem_cons.2 ⟨ht, hrest hus⟩

theorem wellFormed_of_tokens? {s : List Char} {ts : List Token} (h : tokens? s = some ts) :
    ∀ t ∈ ts, t.WellFormed := by
  fun_induction tokens? s generalizing ts with
  | case1 =>
    cases h
    exact List.forall_mem_nil _
  | case2 _ _ _ ih => exact ih h
  | case3 _ _ ih | case4 _ _ _ ih | case5 _ _ _ _ ih | case6 _ _ _ _ _ ih | case7 _ _ _ _ _ _ ih
  | case8 _ _ _ _ _ _ _ ih => exact forall_mem_of_map_cons h ih nofun
  | case9 => next ih => exact forall_mem_of_map_cons h ih nofun
  | case10 | case12 | case16 => cases h
  | case11 =>
    next hj _ ih => exact forall_mem_of_map_cons h ih (Token.wellFormed_atom (wellFormed_of_number? hj))
  | case13 => next ih => exact forall_mem_of_map_cons h ih (Token.wellFormed_atom .null)
  | case14 | case15 => next ih => exact forall_mem_of_map_cons h ih (Token.wellFormed_atom (.bool _))

/-! ## Values -/

/-- What a container holds already is well formed. -/
def Frame.WellFormed : Frame → Prop
  | .array done => ∀ j ∈ done, j.WellFormed
  | .object done _ => ∀ e ∈ done, e.2.WellFormed

namespace Frame.WellFormed

variable {items : List Json} {entries : List (String × Json)} {last : String} {j : Json}

theorem array (h : (Frame.array items).WellFormed) (hj : j.WellFormed) :
    (Frame.array (j :: items)).WellFormed := List.forall_mem_cons.2 ⟨hj, h⟩

theorem object (h : (Frame.object entries last).WellFormed) (hj : j.WellFormed) (name : String) :
    (Frame.object ((last, j) :: entries) name).WellFormed := List.forall_mem_cons.2 ⟨hj, h⟩

/-- The items of an array are kept in reverse until it ends. -/
theorem closeArray (h : (Frame.array items).WellFormed) (hj : j.WellFormed) :
    (Json.array (j :: items).reverse).WellFormed :=
  .array fun i hi => h.array hj i (List.mem_reverse.1 hi)

/-- The entries of an object are made a table when it ends. -/
theorem closeObject (h : (Frame.object entries last).WellFormed) (hj : j.WellFormed) :
    (Json.object (Table.ofList ((last, j) :: entries).reverse)).WellFormed :=
  .object (Table.sorted_ofList _) fun e he =>
    h.object hj last e (List.mem_reverse.1 (Table.mem_ofList he))

end Frame.WellFormed

mutual

/-- A value that is read among well formed tokens is well formed, and so is the one around it. -/
theorem wellFormed_of_value? {outer : List Frame} {ts : List Token} {j : Json}
    (houter : ∀ f ∈ outer, f.WellFormed) (hts : ∀ t ∈ ts, t.WellFormed)
    (h : value? outer ts = some j) : j.WellFormed := by
  unfold value? at h
  split at h
  · simp only [List.forall_mem_cons] at hts
    exact wellFormed_of_resume? houter (hts.1 _ rfl) hts.2 h
  · simp only [List.forall_mem_cons] at hts
    exact wellFormed_of_resume? houter (.string _) hts.2 h
  · simp only [List.forall_mem_cons] at hts
    exact wellFormed_of_resume? houter (.array (List.forall_mem_nil _)) hts.2.2 h
  · simp only [List.forall_mem_cons] at hts
    have hopen : (Frame.array []).WellFormed := List.forall_mem_nil _
    exact wellFormed_of_value? (List.forall_mem_cons.2 ⟨hopen, houter⟩) hts.2 h
  · simp only [List.forall_mem_cons] at hts
    exact wellFormed_of_resume? houter (.object .nil (List.forall_mem_nil _)) hts.2.2 h
  · next name _ =>
    simp only [List.forall_mem_cons] at hts
    have hopen : (Frame.object [] name).WellFormed := List.forall_mem_nil _
    exact wellFormed_of_value? (List.forall_mem_cons.2 ⟨hopen, houter⟩) hts.2.2.2 h
  · cases h
termination_by ts.length

theorem wellFormed_of_resume? {outer : List Frame} {ts : List Token} {i j : Json}
    (houter : ∀ f ∈ outer, f.WellFormed) (hi : i.WellFormed) (hts : ∀ t ∈ ts, t.WellFormed)
    (h : resume? i outer ts = some j) : j.WellFormed := by
  unfold resume? at h
  split at h
  · split at h
    · cases h
      exact hi
    · cases h
  -- a comma or a closing bracket is about the innermost container
  · simp only [List.forall_mem_cons] at hts
    split at h
    · obtain ⟨hdone, houter⟩ := List.forall_mem_cons.1 houter
      exact wellFormed_of_value? (List.forall_mem_cons.2 ⟨hdone.object hi _, houter⟩) hts.2.2.2 h
    · cases h
  · simp only [List.forall_mem_cons] at hts
    split at h
    · obtain ⟨hdone, houter⟩ := List.forall_mem_cons.1 houter
      exact wellFormed_of_value? (List.forall_mem_cons.2 ⟨hdone.array hi, houter⟩) hts.2 h
    · cases h
  · simp only [List.forall_mem_cons] at hts
    split at h
    · obtain ⟨hdone, houter⟩ := List.forall_mem_cons.1 houter
      exact wellFormed_of_resume? houter (hdone.closeArray hi) hts.2 h
    · cases h
  · simp only [List.forall_mem_cons] at hts
    split at h
    · obtain ⟨hdone, houter⟩ := List.forall_mem_cons.1 houter
      exact wellFormed_of_resume? houter (hdone.closeObject hi) hts.2 h
    · cases h
  · cases h
termination_by ts.length

end

/-- **What is read is well formed.** -/
theorem wellFormed_of_parse? {s : String} {j : Json} (h : parse? s = some j) : j.WellFormed := by
  obtain ⟨ts, hts, hvalue⟩ := Option.bind_eq_some_iff.1 h
  exact wellFormed_of_value? (List.forall_mem_nil _) (wellFormed_of_tokens? hts) hvalue

end Stencil.Json
