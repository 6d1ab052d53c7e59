import Stencil.Json.Printer
import Stencil.Proofs.Number.Rounding
import Stencil.Proofs.Value.WellFormed

/-!
# Values that pass through JSON

A value that passes through JSON comes back as data, and data comes back as it was.

* `Value.asData` says what becomes of each part of a value, and `Value.WellFormed.toData_eq_asData` that
  this is what comes back of a well formed value; `Value.toData_list` and `Value.toData_map` are the steps
  for lists and maps.
* `Json.isFinite` is JSON without infinite numbers, the only kind that is written: `Value.isFinite_toJson`.
* `Value.toJson_asData` says that a value as data has the JSON of the value, and `Value.asData_ofJson`
  that the value of JSON is data already.
* `Value.toData_projects` puts these together: the passage is a projection onto the values that are read
  from JSON.
-/

namespace Stencil

mutual

/-- Whether every number in a JSON value is finite. -/
def Json.isFinite : Json → Bool
  | .float x => x.isFinite
  | .array items => Json.itemsFinite items
  | .object entries => Json.entriesFinite entries
  | .null | .bool _ | .int _ | .string _ => true

/-- Whether every number in the items of an array is finite. -/
def Json.itemsFinite : List Json → Bool
  | [] => true
  | j :: js => Json.isFinite j && Json.itemsFinite js

/-- Whether every number in the entries of an object is finite. -/
def Json.entriesFinite : List (String × Json) → Bool
  | [] => true
  | (_, j) :: es => Json.isFinite j && Json.entriesFinite es

end

namespace Value

/-! ## What is left of a value -/

mutual

/-- A value as data: a safe text and the template of a fallback are plain texts, and there is nothing in
place of what is missing and of an infinite number. All else stays, the names and the order of entries
included. -/
def asData : Value → Value
  | .undefined | .none => .none
  | .bool b => .bool b
  | .int n => .int n
  | .float x => if x.isFinite then .float x else .none
  | .string s _ => text s
  | .fallback template => text template
  | .list items => .list (itemsAsData items)
  | .map entries => .map (entriesAsData entries)

/-- The items of a list as data. -/
def itemsAsData : List Value → List Value
  | [] => []
  | v :: vs => asData v :: itemsAsData vs

/-- The entries of a map as data. -/
def entriesAsData : List (String × Value) → List (String × Value)
  | [] => []
  | (name, v) :: es => (name, asData v) :: entriesAsData es

end

theorem itemsAsData_eq_map (items : List Value) : itemsAsData items = items.map asData := by
  induction items with
  | nil => rfl
  | cons v vs ih => rw [itemsAsData, ih, List.map_cons]

theorem entriesAsData_eq_map (entries : List (String × Value)) :
    entriesAsData entries = entries.map fun e => (e.1, e.2.asData) := by
  induction entries with
  | nil => rfl
  | cons e es ih => rw [entriesAsData, ih, List.map_cons]

/-! ## What comes back -/

theorem itemsOfJson_eq_map (items : List Json) : itemsOfJson items = items.map ofJson := by
  induction items with
  | nil => rfl
  | cons j js ih => rw [itemsOfJson, ih, List.map_cons]

theorem entriesOfJson_eq_map (entries : List (String × Json)) :
    entriesOfJson entries = entries.map fun e => (e.1, ofJson e.2) := by
  induction entries with
  | nil => rfl
  | cons e es ih => rw [entriesOfJson, ih, List.map_cons]

/-- A list that comes back has what comes back of its items. -/
theorem toData_list (items : List Value) : (Value.list items).toData = .list (items.map toData) := by
  rw [toData, toJson, ofJson, itemsToJson_eq_map, itemsOfJson_eq_map, List.map_map]
  rfl

/-- A map that comes back is the table of its names, each with what comes back of its value. -/
theorem toData_map (entries : List (String × Value)) :
    (Value.map entries).toData = .map (Table.ofList (entries.map fun e => (e.1, e.2.toData))) := by
  rw [toData, toJson, ofJson, entriesToJson_eq_map, entriesOfJson_eq_map, List.map_map]
  rfl

/-- **A well formed value comes back as data.** Its integers fit, and its maps are tables already. -/
theorem WellFormed.toData_eq_asData {v : Value} (h : v.WellFormed) : v.toData = v.asData := by
  induction h with
  | undefined | none | bool | string | fallback => rfl
  | int hn => exact ofInt_of_fits hn
  | float x =>
    rw [toData, Value.toJson, asData]
    split
    · rfl
    · rfl
  | list _ ih =>
    rw [toData_list, asData, itemsAsData_eq_map]
    exact congrArg Value.list (List.map_congr_left ih)
  | @map entries hsorted _ ih =>
    have hentries : entries.map (fun e => (e.1, e.2.toData)) = entriesAsData entries := by
      rw [entriesAsData_eq_map]
      exact List.map_congr_left fun e he => congrArg _ (ih e he)
    have hdata : Table.Sorted (entries.map fun e => (e.1, e.2.toData)) := List.pairwise_map.2 hsorted
    rw [toData_map, Table.ofList_of_sorted hdata, hentries, asData]

/-! ## The JSON of a value -/

mutual

/-- No value is written with an infinite number. -/
theorem isFinite_toJson : ∀ v : Value, v.toJson.isFinite = true
  | .undefined | .none | .bool _ | .int _ | .string .. | .fallback _ => rfl
  | .float x => by
    rw [toJson]
    split
    · next hx => exact hx
    · rfl
  | .list items => itemsFinite_itemsToJson items
  | .map entries => entriesFinite_entriesToJson entries

theorem itemsFinite_itemsToJson : ∀ items : List Value, Json.itemsFinite (itemsToJson items) = true
  | [] => rfl
  | v :: vs => Bool.and_eq_true_iff.2 ⟨isFinite_toJson v, itemsFinite_itemsToJson vs⟩

theorem entriesFinite_entriesToJson :
    ∀ entries : List (String × Value), Json.entriesFinite (entriesToJson entries) = true
  | [] => rfl
  | (_, v) :: es => Bool.and_eq_true_iff.2 ⟨isFinite_toJson v, entriesFinite_entriesToJson es⟩

end

mutual

/-- A value as data has the JSON of the value. -/
theorem toJson_asData : ∀ v : Value, v.asData.toJson = v.toJson
  | .undefined | .none | .bool _ | .int _ | .string .. | .fallback _ => rfl
  | .float x => by
    rw [asData, toJson]
    split
    · next hx => exact if_pos hx
    · rfl
  | .list items => congrArg Json.array (itemsToJson_itemsAsData items)
  | .map entries => congrArg Json.object (entriesToJson_entriesAsData entries)

theorem itemsToJson_itemsAsData : ∀ items : List Value,
    itemsToJson (itemsAsData items) = itemsToJson items
  | [] => rfl
  | v :: vs => by rw [itemsAsData, itemsToJson, itemsToJson, toJson_asData v, itemsToJson_itemsAsData vs]

theorem entriesToJson_entriesAsData : ∀ entries : List (String × Value),
    entriesToJson (entriesAsData entries) = entriesToJson entries
  | [] => rfl
  | (_, v) :: es => by
    rw [entriesAsData, entriesToJson, entriesToJson, toJson_asData v, entriesToJson_entriesAsData es]

end

/-! ## Values of JSON -/

theorem asData_ofInt {n : Int} (h : Json.fits n = true) : (ofInt n).asData = ofInt n := by
  unfold ofInt
  split
  · rfl
  · simp only [Json.fits, Bool.and_eq_true, decide_eq_true_eq] at h
    exact if_pos (Binary64.isFinite_ofInt (by omega))

theorem itemsFinite_iff {items : List Json} :
    Json.itemsFinite items = true ↔ ∀ j ∈ items, j.isFinite = true := by
  induction items with
  | nil => simp [Json.itemsFinite]
  | cons j js ih => rw [Json.itemsFinite, Bool.and_eq_true, ih, List.forall_mem_cons]

theorem entriesFinite_iff {entries : List (String × Json)} :
    Json.entriesFinite entries = true ↔ ∀ e ∈ entries, e.2.isFinite = true := by
  induction entries with
  | nil => simp [Json.entriesFinite]
  | cons e es ih => rw [Json.entriesFinite, Bool.and_eq_true, ih, List.forall_mem_cons]

/-- **The value of JSON is data already**, an integer that has become a floating point number included. -/
theorem asData_ofJson {j : Json} (h : j.WellFormed) (hj : j.isFinite = true) :
    (ofJson j).asData = ofJson j := by
  induction h with
  | null | bool | string => rfl
  | int hn => exact asData_ofInt hn
  | float x => exact if_pos hj
  | @array items _ ih =>
    have hitems := itemsFinite_iff.1 hj
    rw [ofJson, asData, itemsAsData_eq_map, itemsOfJson_eq_map, List.map_map]
    exact congrArg Value.list (List.map_congr_left fun j hmem => ih j hmem (hitems j hmem))
  | @object entries _ _ ih =>
    have hentries := entriesFinite_iff.1 hj
    rw [ofJson, asData, entriesAsData_eq_map]
    refine congrArg Value.map ((List.map_congr_left fun e he => ?_).trans (List.map_id _))
    -- an entry of the table is one of the entries that it is made of
    have hmem := Table.mem_ofList he
    rw [entriesOfJson_eq_map] at hmem
    obtain ⟨d, hd, rfl⟩ := List.mem_map.1 hmem
    exact congrArg _ (ih d hd (hentries d hd))

/-- What comes back as it was is what is read from JSON with finite numbers. -/
theorem WellFormed.toData_eq_self_iff {v : Value} (h : v.WellFormed) :
    v.toData = v ↔ ∃ j : Json, j.WellFormed ∧ j.isFinite = true ∧ ofJson j = v := by
  constructor
  · exact fun hv => ⟨v.toJson, h.toJson, isFinite_toJson v, hv⟩
  · rintro ⟨j, hj, hfinite, rfl⟩
    rw [h.toData_eq_asData, asData_ofJson hj hfinite]

/-- **The passage through JSON is a projection onto data.** No value is refused: its JSON is well formed
and has finite numbers only, and what comes back is the value as data, with the JSON text of the value.
What came back once does not change any more, and the values that do not change at all are those that are
read from JSON. -/
theorem toData_projects {v : Value} (h : v.WellFormed) :
    (v.toJson.WellFormed ∧ v.toJson.isFinite = true) ∧ v.toData = v.asData ∧
      v.toData.toData = v.toData ∧ v.toData.toJson.text = v.toJson.text ∧
      (v.toData = v ↔ ∃ j : Json, j.WellFormed ∧ j.isFinite = true ∧ ofJson j = v) := by
  have hdata : v.toData.WellFormed := wellFormed_ofJson v.toJson
  refine ⟨⟨h.toJson, isFinite_toJson v⟩, h.toData_eq_asData, ?_, ?_, h.toData_eq_self_iff⟩
  · exact hdata.toData_eq_self_iff.2 ⟨v.toJson, h.toJson, isFinite_toJson v, rfl⟩
  · rw [h.toData_eq_asData, toJson_asData]

/-- A value with parts of each kind that does not come back as it was. -/
def mixed : Value :=
  .map [("a", .list [.safeText "<", .undefined, .float (.infinity true)]), ("b", .fallback "page"),
    ("c", .int 7)]

theorem toData_projects_mixed : mixed.WellFormed ∧
    mixed.toData =
      .map [("a", .list [.text "<", .none, .none]), ("b", .text "page"), ("c", .int 7)] ∧
    mixed.toData.toData = mixed.toData ∧ ¬ mixed.toData = mixed := by
  have hmixed : mixed.WellFormed := by
    refine .map (by unfold Table.Sorted; decide) ?_
    simp only [List.forall_mem_cons]
    refine ⟨.list ?_, .fallback _, .int (by decide), List.forall_mem_nil _⟩
    simp only [List.forall_mem_cons]
    exact ⟨.string _ _, .undefined, .float _, List.forall_mem_nil _⟩
  obtain ⟨-, hdata, hagain, -, -⟩ := toData_projects hmixed
  refine ⟨hmixed, hdata, hagain, fun heq => ?_⟩
  rw [hdata] at heq
  cases heq

/-- An integer of JSON with 64 bits and no sign is data as a floating point number. -/
example : (ofJson (.int 0x8000000000000000)).toData = .float (.ofInt 0x8000000000000000) := by
  rw [(wellFormed_ofJson _).toData_eq_asData, asData_ofJson (.int (by decide)) rfl]
  rfl

end Value

end Stencil
