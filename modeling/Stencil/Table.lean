/-!
# Tables

Finite maps from names to values, kept as lists of entries in increasing order of their names. The
order of `String` is by code point, which is the order of the encoded bytes, so a listing of a table
is the listing that every answer shows.

* `get?`, `insert`, `erase` and `ofList` are the operations.
* `inOrder` puts entries into the order of a table.
* `Table.Sorted` is the order of the entries; `sorted_insert`, `sorted_erase` and `sorted_ofList` say
  that the operations keep it, and `get?_insert` what an insertion changes. `sorted_inOrder` says that
  entries of different names are a table once they are in order.
-/

namespace Stencil

/-- Entries by name. -/
abbrev Table (α : Type u) := List (String × α)

namespace Table

variable {α : Type u}

/-- The entry of a name. -/
def get? (name : String) : Table α → Option α
  | [] => none
  | (k, v) :: t => if k = name then some v else get? name t

/-- Whether a name has an entry. -/
def contains (name : String) (t : Table α) : Bool := (get? name t).isSome

/-- The table with `name` set to `value`. -/
def insert (name : String) (value : α) : Table α → Table α
  | [] => [(name, value)]
  | (k, v) :: t =>
    if name < k then (name, value) :: (k, v) :: t
    else if name = k then (name, value) :: t
    else (k, v) :: insert name value t

/-- The table without an entry for `name`. -/
def erase (name : String) (t : Table α) : Table α := t.filter fun e => e.1 ≠ name

/-- The names of a table. -/
def names (t : Table α) : List String := t.map (·.1)

/-- The table of some entries; of two for one name the later counts. -/
def ofList (entries : List (String × α)) : Table α :=
  entries.foldl (fun t e => insert e.1 e.2 t) []

/-- The entries in the order of their names; those of one name keep their places. -/
def inOrder (entries : List (String × α)) : List (String × α) := entries.mergeSort fun a b => a.1 ≤ b.1

/-- The names are strictly increasing, so each occurs once. -/
def Sorted (t : Table α) : Prop := t.Pairwise fun a b => a.1 < b.1

/-! ## Laws of insertion -/

theorem mem_insert {e : String × α} {name : String} {value : α} {t : Table α}
    (h : e ∈ insert name value t) : e = (name, value) ∨ e ∈ t := by
  induction t with
  | nil => simpa [insert] using h
  | cons kv t ih =>
    obtain ⟨k, v⟩ := kv
    simp only [insert] at h
    split at h
    · simpa using h
    · split at h
      · simp only [List.mem_cons] at h ⊢
        exact h.imp_right Or.inr
      · simp only [List.mem_cons] at h ⊢
        rcases h with h | h
        · exact .inr (.inl h)
        · exact (ih h).imp_right Or.inr

theorem sorted_insert (name : String) (value : α) {t : Table α} (h : Sorted t) :
    Sorted (insert name value t) := by
  induction t with
  | nil => simp [insert, Sorted]
  | cons kv t ih =>
    obtain ⟨k, v⟩ := kv
    obtain ⟨hk, ht⟩ := List.pairwise_cons.1 h
    simp only [insert]
    split
    · next hlt =>
      refine List.pairwise_cons.2 ⟨fun e he => ?_, h⟩
      rcases List.mem_cons.1 he with rfl | he
      · exact hlt
      · exact String.lt_trans hlt (hk e he)
    · next hlt =>
      split
      · next heq =>
        subst heq
        exact List.pairwise_cons.2 ⟨hk, ht⟩
      · next hne =>
        refine List.pairwise_cons.2 ⟨fun e he => ?_, ih ht⟩
        rcases mem_insert he with rfl | he
        · exact Decidable.byContradiction fun h' =>
            hne (String.le_antisymm (String.not_lt.1 h') (String.not_lt.1 hlt))
        · exact hk e he

theorem sorted_erase (name : String) {t : Table α} (h : Sorted t) : Sorted (erase name t) :=
  h.filter _

theorem sorted_ofList (entries : List (String × α)) : Sorted (ofList entries) := by
  suffices ∀ t : Table α, Sorted t → Sorted (entries.foldl (fun t e => insert e.1 e.2 t) t) from
    this [] List.Pairwise.nil
  induction entries with
  | nil => exact fun _ h => h
  | cons e entries ih => exact fun t h => ih _ (sorted_insert _ _ h)

theorem get?_insert (name key : String) (value : α) (t : Table α) :
    get? key (insert name value t) = if name = key then some value else get? key t := by
  induction t with
  | nil => simp [insert, get?]
  | cons kv t ih =>
    obtain ⟨k, v⟩ := kv
    simp only [insert]
    split
    · simp [get?]
    · split
      · next heq => subst heq; by_cases h : name = key <;> simp [get?, h]
      · next hne =>
        by_cases h : k = key
        · subst h; simp [get?, hne]
        · simp [get?, h, ih]

/-! ## Entries in order -/

theorem inOrder_perm (entries : List (String × α)) : (inOrder entries).Perm entries :=
  List.mergeSort_perm _ _

/-- Entries of different names are a table once they are in order. -/
theorem sorted_inOrder {entries : List (String × α)} (h : (names entries).Nodup) :
    Sorted (inOrder entries) := by
  have hle : (inOrder entries).Pairwise fun a b => a.1 ≤ b.1 := by
    refine (List.pairwise_mergeSort (fun a b c hab hbc => ?_) (fun a b => ?_) entries).imp
      of_decide_eq_true
    · simp only [decide_eq_true_eq] at *
      exact String.le_trans hab hbc
    · simpa using String.le_total a.1 b.1
  have hne : (inOrder entries).Pairwise fun a b => a.1 ≠ b.1 :=
    List.pairwise_map.1 (((inOrder_perm entries).map Prod.fst).nodup_iff.2 h)
  refine hle.imp₂ (fun a b hab hne => ?_) hne
  exact Decidable.byContradiction fun hlt => hne (String.le_antisymm hab (String.not_lt.1 hlt))

end Table

end Stencil
