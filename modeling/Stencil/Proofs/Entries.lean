import Stencil.Environment.Basic

/-!
# Entries of tables

* `Table.mem_of_get?` and `Table.mem_ofList` say where the entries of a table come from;
  `Environment.mem_of_template` says so for the templates of an environment and
  `Function.exists_of_mem_standard` for the functions of a new one. `Table.get?_of_mem` says that the
  entries are found if their names differ, and `Table.ofList_of_sorted` that they stay as they are.
* `Table.mem_names_insert` and `Table.mem_names_ofList` say which names a table has after a change, and
  `Table.get?_erase` what is found after an entry is removed.
* `Table.change` changes the entry of one name and no other.
-/

namespace Stencil

namespace Table

variable {α : Type u}

theorem mem_of_get? {name : String} {v : α} {t : Table α} (h : get? name t = some v) :
    (name, v) ∈ t := by
  induction t with
  | nil => cases h
  | cons kv t ih =>
    obtain ⟨k, w⟩ := kv
    simp only [get?] at h
    split at h
    · next hk =>
      cases h
      simp [hk]
    · exact List.mem_cons_of_mem _ (ih h)

theorem Sorted.nodup_names {t : Table α} (h : Sorted t) : (names t).Nodup :=
  List.pairwise_map.2 (h.imp String.ne_of_lt)

/-- Where no name has two entries, each entry is the one of its name. -/
theorem get?_of_mem {name : String} {v : α} {t : Table α} (h : (names t).Nodup)
    (hmem : (name, v) ∈ t) : get? name t = some v := by
  induction t with
  | nil => cases hmem
  | cons e t ih =>
    obtain ⟨key, w⟩ := e
    obtain ⟨hfirst, ht⟩ := List.nodup_cons.1 h
    rw [get?]
    rcases List.mem_cons.1 hmem with heq | hmem
    · cases heq
      rw [if_pos rfl]
    · rw [if_neg, ih ht hmem]
      rintro rfl
      exact hfirst (List.mem_map.2 ⟨_, hmem, rfl⟩)

theorem mem_ofList {e : String × α} {entries : List (String × α)} (h : e ∈ ofList entries) :
    e ∈ entries := by
  suffices ∀ t : Table α, e ∈ entries.foldl (fun t e => insert e.1 e.2 t) t → e ∈ entries ∨ e ∈ t from
    (this [] h).resolve_right (by simp)
  clear h
  induction entries with
  | nil => exact fun t h => .inr h
  | cons d entries ih =>
    intro t h
    rcases ih _ h with h | h
    · exact .inl (List.mem_cons_of_mem _ h)
    · rcases mem_insert h with rfl | h
      · exact .inl (by simp)
      · exact .inr h

/-- An entry with a name behind all others comes last. -/
theorem insert_of_lt {name : String} {value : α} {t : Table α} (h : ∀ e ∈ t, e.1 < name) :
    insert name value t = t ++ [(name, value)] := by
  induction t with
  | nil => rfl
  | cons e t ih =>
    obtain ⟨key, w⟩ := e
    obtain ⟨hkey, ht⟩ := List.forall_mem_cons.1 h
    rw [insert, if_neg (String.lt_asymm hkey), if_neg, ih ht]
    · rfl
    · rintro rfl
      exact String.lt_irrefl name hkey

/-- Entries in the order of their names are the table that is made of them. -/
theorem ofList_of_sorted {t : Table α} (h : Sorted t) : ofList t = t := by
  suffices ∀ rest t : Table α, Sorted (t ++ rest) →
      rest.foldl (fun t e => insert e.1 e.2 t) t = t ++ rest from this t [] h
  intro rest
  induction rest with
  | nil => exact fun t _ => (List.append_nil t).symm
  | cons e rest ih =>
    intro t h
    have hlast : insert e.1 e.2 t = t ++ [e] :=
      insert_of_lt fun d hd => (List.pairwise_append.1 h).2.2 d hd e List.mem_cons_self
    rw [List.append_cons] at h ⊢
    rw [List.foldl_cons, hlast, ih _ h]

/-! ## Names -/

theorem contains_iff {name : String} {t : Table α} : contains name t = true ↔ name ∈ names t := by
  induction t with
  | nil => simp [contains, get?, names]
  | cons kv t ih =>
    obtain ⟨k, v⟩ := kv
    unfold contains at ih ⊢
    by_cases hk : k = name
    · simp [get?, names, hk]
    · rw [get?, if_neg hk, ih]
      simp [names, Ne.symm hk]

theorem mem_names_insert {name key : String} {value : α} {t : Table α} :
    name ∈ names (insert key value t) ↔ name = key ∨ name ∈ names t := by
  rw [← contains_iff, ← contains_iff, contains, contains, get?_insert]
  by_cases h : key = name
  · simp [h]
  · simp [h, Ne.symm h]

theorem mem_names_ofList {name : String} {entries : List (String × α)} :
    name ∈ names (ofList entries) ↔ name ∈ entries.map (·.1) := by
  suffices ∀ t : Table α, name ∈ names (entries.foldl (fun t e => insert e.1 e.2 t) t) ↔
      name ∈ entries.map (·.1) ∨ name ∈ names t by
    have hentries := this []
    simp only [names, List.map_nil, List.not_mem_nil, or_false] at hentries
    exact hentries
  induction entries with
  | nil => exact fun t => by simp
  | cons e entries ih =>
    intro t
    rw [List.foldl_cons, ih, mem_names_insert, List.map_cons, List.mem_cons]
    exact or_left_comm.trans or_assoc.symm

/-! ## Removing an entry -/

theorem get?_erase (name key : String) (t : Table α) :
    get? key (erase name t) = if name = key then none else get? key t := by
  induction t with
  | nil => simp [erase, get?]
  | cons p t ih =>
    obtain ⟨k, v⟩ := p
    unfold erase at ih ⊢
    by_cases hk : k = name
    · subst hk
      rw [List.filter_cons_of_neg (by simp), ih, get?]
      split <;> rfl
    · rw [List.filter_cons_of_pos (by simpa using hk), get?, get?, ih]
      by_cases hkey : k = key
      · rw [if_pos hkey, if_neg fun h => hk (hkey.trans h.symm), if_pos hkey]
      · rw [if_neg hkey, if_neg hkey]

/-! ## Changing an entry -/

/-- The table with the entry of a name changed, if there is one. -/
def change (name : String) (f : α → α) (t : Table α) : Table α :=
  t.map fun p => if p.1 = name then (p.1, f p.2) else p

theorem change_cons (name : String) (f : α → α) (k : String) (v : α) (t : Table α) :
    change name f ((k, v) :: t) = (k, if k = name then f v else v) :: change name f t := by
  simp only [change, List.map_cons]
  split
  · rfl
  · rfl

theorem get?_change (name key : String) (f : α → α) (t : Table α) :
    get? key (change name f t) = if key = name then (get? key t).map f else get? key t := by
  induction t with
  | nil => simp [change, get?]
  | cons p t ih =>
    obtain ⟨k, v⟩ := p
    rw [change_cons, get?, get?]
    by_cases hkey : k = key
    · subst hkey
      by_cases hk : k = name
      · simp [hk]
      · simp [hk]
    · rw [if_neg hkey, if_neg hkey, ih]

theorem contains_change (name key : String) (f : α → α) (t : Table α) :
    contains key (change name f t) = contains key t := by
  unfold contains
  rw [get?_change]
  split
  · rw [Option.isSome_map]
  · rfl

theorem insert_change {name key : String} (hne : key ≠ name) (f : α → α) (value : α) (t : Table α) :
    insert key value (change name f t) = change name f (insert key value t) := by
  induction t with
  | nil => simp [change, insert, hne]
  | cons p t ih =>
    obtain ⟨k, v⟩ := p
    rw [change_cons, insert, insert]
    split
    · rw [change_cons, change_cons, if_neg hne]
    · split
      · rw [change_cons, if_neg hne]
      · rw [change_cons, ih]

end Table

theorem Environment.mem_of_template {e : Environment} {name : String} {t : Template}
    (h : e.template name = .ok t) : (name, t) ∈ e.templates := by
  unfold Environment.template at h
  split at h
  · next u hu =>
    cases h
    exact Table.mem_of_get? hu
  · cases h

/-- The functions of a new environment are built in. -/
theorem Function.exists_of_mem_standard {name : String} {f : Function} (h : (name, f) ∈ standard) :
    ∃ b, (name, b) ∈ builtins ∧ Builtin.function b = f := by
  obtain ⟨⟨key, b⟩, hb, heq⟩ := List.mem_map.1 (Table.mem_ofList h)
  cases heq
  exact ⟨b, hb, rfl⟩

end Stencil
