import Stencil.Proofs.Entries
import Stencil.Proofs.Json.WellFormed
import Stencil.Value.Data

/-!
# Well formed values

Integers of values have 64 bits with their sign, and each map is a table: it has one entry for a name,
and the names are in order. The type of values knows neither; every way to make a value keeps both.

* `Value.WellFormed` says so of a value, at every depth.
* `Value.wellFormed_ofJson` is about the data of a rendering, whatever JSON it comes from, and
  `Value.wellFormed_merge` about maps that are put together.
* `Value.WellFormed.toJson` is about the way back, and `Value.WellFormed.nodup_names` about the names of a
  map.
-/

namespace Stencil.Value

/-- All integers fit and all maps are tables. -/
inductive WellFormed : Value → Prop
  | undefined : WellFormed .undefined
  | none : WellFormed .none
  | bool (b : Bool) : WellFormed (.bool b)
  | int {n : Int} : fits n = true → WellFormed (.int n)
  | float (x : Binary64) : WellFormed (.float x)
  | string (s : String) (safe : Bool) : WellFormed (.string s safe)
  | fallback (template : String) : WellFormed (.fallback template)
  | list {items : List Value} : (∀ v ∈ items, WellFormed v) → WellFormed (.list items)
  | map {entries : List (String × Value)} : Table.Sorted entries →
    (∀ e ∈ entries, WellFormed e.2) → WellFormed (.map entries)

/-- The names of a map differ. -/
theorem WellFormed.nodup_names {entries : List (String × Value)} (h : (Value.map entries).WellFormed) :
    (Table.names entries).Nodup := by
  cases h with
  | map hsorted _ => exact hsorted.nodup_names

/-! ## Values of JSON -/

theorem wellFormed_ofInt (n : Int) : (ofInt n).WellFormed := by
  unfold ofInt
  split
  · next hn => exact .int hn
  · exact .float _

mutual

/-- **The value of JSON is well formed.** -/
theorem wellFormed_ofJson : ∀ j : Json, (ofJson j).WellFormed
  | .null => .none
  | .bool b => .bool b
  | .int n => wellFormed_ofInt n
  | .float x => .float x
  | .string s => .string s false
  | .array items => .list (wellFormed_itemsOfJson items)
  | .object entries => .map (Table.sorted_ofList _) fun e he =>
    wellFormed_entriesOfJson entries e (Table.mem_ofList he)

theorem wellFormed_itemsOfJson : ∀ items : List Json, ∀ v ∈ itemsOfJson items, v.WellFormed
  | [] => List.forall_mem_nil _
  | j :: js => List.forall_mem_cons.2 ⟨wellFormed_ofJson j, wellFormed_itemsOfJson js⟩

theorem wellFormed_entriesOfJson :
    ∀ entries : List (String × Json), ∀ e ∈ entriesOfJson entries, e.2.WellFormed
  | [] => List.forall_mem_nil _
  | (_, j) :: es => List.forall_mem_cons.2 ⟨wellFormed_ofJson j, wellFormed_entriesOfJson es⟩

end

/-! ## JSON of values -/

theorem itemsToJson_eq_map (items : List Value) : itemsToJson items = items.map toJson := by
  induction items with
  | nil => rfl
  | cons v vs ih => rw [itemsToJson, ih, List.map_cons]

theorem entriesToJson_eq_map (entries : List (String × Value)) :
    entriesToJson entries = entries.map fun e => (e.1, e.2.toJson) := by
  induction entries with
  | nil => rfl
  | cons e es ih => rw [entriesToJson, ih, List.map_cons]

/-- An integer of values fits into JSON. -/
theorem json_fits {n : Int} (h : fits n = true) : Json.fits n = true := by
  simp only [fits, Json.fits, Bool.and_eq_true, decide_eq_true_eq] at h ⊢
  omega

/-- **The JSON of a well formed value is well formed.** -/
theorem WellFormed.toJson {v : Value} (h : v.WellFormed) : v.toJson.WellFormed := by
  induction h with
  | undefined | none => exact .null
  | bool b => exact .bool b
  | int hn => exact .int (json_fits hn)
  | float x =>
    rw [Value.toJson]
    split
    · exact .float x
    · exact .null
  | string s | fallback s => exact .string s
  | list _ ih =>
    rw [Value.toJson, itemsToJson_eq_map]
    exact .array (List.forall_mem_map.2 ih)
  | map hsorted _ ih =>
    rw [Value.toJson, entriesToJson_eq_map]
    exact .object (List.pairwise_map.2 hsorted) (List.forall_mem_map.2 ih)

/-! ## Maps that are put together -/

theorem wellFormed_insert {t : Table Value} (ht : (Value.map t).WellFormed) {v : Value}
    (hv : v.WellFormed) (name : String) : (Value.map (Table.insert name v t)).WellFormed := by
  cases ht with
  | map hsorted hentries =>
    refine .map (Table.sorted_insert name v hsorted) fun e he => ?_
    rcases Table.mem_insert he with rfl | he
    · exact hv
    · exact hentries e he

theorem wellFormed_mergeEntries {earlier later : Table Value} (h : (Value.map earlier).WellFormed)
    (hlater : ∀ e ∈ later, e.2.WellFormed) : (Value.map (mergeEntries earlier later)).WellFormed := by
  unfold mergeEntries
  induction later generalizing earlier with
  | nil => exact h
  | cons e later ih =>
    obtain ⟨he, hlater⟩ := List.forall_mem_cons.1 hlater
    rw [List.foldl_cons]
    refine ih ?_ hlater
    split
    · exact h
    · exact wellFormed_insert h he e.1

/-- **Maps that are put together are well formed.** -/
theorem wellFormed_merge {values : List Value} (h : ∀ v ∈ values, v.WellFormed) :
    (merge values).WellFormed := by
  refine List.foldlRecOn (motive := fun t => (Value.map t).WellFormed) values _ ?_ fun t ht v hv => ?_
  · exact .map .nil (List.forall_mem_nil _)
  · cases h v hv with
    | map _ hentries => exact wellFormed_mergeEntries ht hentries
    | _ => exact ht

end Stencil.Value
