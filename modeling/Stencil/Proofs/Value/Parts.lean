import Stencil.Function
import Stencil.Proofs.Entries
import Stencil.Proofs.Render.Evaluation
import Stencil.Proofs.Text.ByteOrder
import Stencil.Proofs.Value.WellFormed

/-!
# The parts of a value

The length of a value, the items that are looked up in it and the pairs that a loop runs through are
three views of the same parts.

* `Value.visited` are the pairs that a loop over a value visits, and `Value.Visits` says which keys
  these have if the items are the ones that are looked up.
* `Value.PartsAgree` says of each kind of value how its length, its items and its pairs agree.
* `Value.parts_agree` concludes that they do, if a map has one entry for a name. The order of its entries
  does not matter: a loop puts them in order. `Value.WellFormed.partsAgree` says so of well formed values.
-/

namespace Stencil

namespace Value

/-! ## The pairs of a loop -/

/-- The pairs that a loop over a value visits, one after the other. -/
def visited (v : Value) : Outcome (List (Value × Value)) := v.pairs.map Pairs.toList

/-- The numbers below `n`. -/
def indices (n : Nat) : List Value := (List.range n).map fun i : Nat => .int i

/-- A loop visits these keys one after the other, each with the item that is looked up for it. -/
def Visits (v : Value) (keys : List Value) : Prop :=
  ∃ ps, v.visited = .ok ps ∧ ps.map (·.1) = keys ∧ ∀ p ∈ ps, Function.index [v, p.1] = .ok p.2

/-- The keys for which there is an item are the numbers below `n`. -/
def ItemsBelow (v : Value) (n : Nat) : Prop :=
  ∀ key, (∃ w, Function.index [v, key] = .ok w) ↔ ∃ i : Nat, key = .int i ∧ i < n

/-- The length of a value, its items and the pairs of a loop agree.

A list has as many elements as a loop visits, under the numbers below its length. A loop over a map
visits its names in the order of their bytes, whatever their order in the map is, and there is nothing
under any other name. A text has an item for each of its bytes. The numbers below an integer are visited
with themselves, and nothing else can be visited but what is missing, which has no pairs. -/
def PartsAgree (v : Value) : Prop :=
  match v with
  | .list items =>
    (∀ n : Nat, Function.len [v] = .ok (.int n) ↔ v.Visits (indices n)) ∧
    Function.len [v] = .ok (.int items.length) ∧ v.ItemsBelow items.length
  | .map entries =>
    ∃ names : List String, names.Perm (Table.names entries) ∧ v.Visits (names.map text) ∧
      names.Pairwise (fun name later => bytes name < bytes later) ∧
      Function.len [v] = .ok (.int names.length) ∧
      ∀ name safe, name ∉ names → Function.index [v, .string name safe] = .ok .undefined
  | .string s _ =>
    Function.len [v] = .ok (.int (bytes s).length) ∧ v.ItemsBelow (bytes s).length ∧
    (∀ (i : Nat) (b : UInt8), (bytes s)[i]? = some b →
      Function.index [v, .int i] = .ok (.int b.toNat)) ∧
    v.visited = .error (.notIterable v)
  | .int n =>
    if 0 ≤ n then v.visited = .ok ((indices n.toNat).map fun i => (i, i))
    else v.visited = .error (.notIterable v)
  | .undefined | .none => v.visited = .ok []
  | .bool _ | .float _ | .fallback _ => v.visited = .error (.notIterable v)

/-! ## Items -/

section Items

variable {α : Type} {items : List α}

theorem index_key (v key : Value) : Function.index [v, key] = v.item key := by
  rw [Function.index, Function.itemAt]
  cases v.item key <;> rfl

theorem at?_natCast (items : List α) (i : Nat) : at? items (i : Int) = items[i]? := by
  rw [at?, if_pos (Int.natCast_nonneg i), Int.toNat_natCast]

theorem at?_isSome_iff {i : Int} :
    (at? items i).isSome = true ↔ ∃ n : Nat, i = n ∧ n < items.length := by
  unfold at?
  split
  · next hi =>
    refine ⟨fun h => ⟨i.toNat, (Int.toNat_of_nonneg hi).symm, by simpa using h⟩, ?_⟩
    rintro ⟨n, rfl, hn⟩
    simpa using hn
  · next hi =>
    refine iff_of_false (fun h => nomatch h) ?_
    rintro ⟨n, rfl, -⟩
    exact hi (Int.natCast_nonneg n)

/-- A value that has its items under integers, as far as they are indices into a list. -/
theorem itemsBelow_of {v : Value} {f : α → Value}
    (hint : ∀ i : Int, v.item (.int i) = match at? items i with
      | some a => .ok (f a)
      | Option.none => .error (.indexOutOfRange i))
    (hother : ∀ key w, v.item key = .ok w → ∃ i, key = .int i) : v.ItemsBelow items.length := by
  intro key
  rw [index_key]
  constructor
  · rintro ⟨w, hw⟩
    obtain ⟨i, rfl⟩ := hother key w hw
    rw [hint] at hw
    have hsome : (at? items i).isSome = true := by
      cases hat : at? items i with
      | some a => rfl
      | none =>
        rw [hat] at hw
        cases hw
    obtain ⟨n, rfl, hn⟩ := at?_isSome_iff.1 hsome
    exact ⟨n, rfl, hn⟩
  · rintro ⟨i, rfl, hi⟩
    rw [hint, at?_natCast, List.getElem?_eq_getElem hi]
    exact ⟨_, rfl⟩

end Items

theorem itemsBelow_list (items : List Value) : (Value.list items).ItemsBelow items.length := by
  refine itemsBelow_of (f := id) (fun i => ?_) fun key w h => ?_
  · rw [item]
    cases at? items i <;> rfl
  · cases key with
    | int i => exact ⟨i, rfl⟩
    | _ => cases h

theorem itemsBelow_string (s : String) (safe : Bool) :
    (Value.string s safe).ItemsBelow (bytes s).length := by
  refine itemsBelow_of (f := fun b => .int b.toNat) (fun i => ?_) fun key w h => ?_
  · rw [item]
    cases at? (bytes s) i <;> rfl
  · cases key with
    | int i => exact ⟨i, rfl⟩
    | _ => cases h

/-! ## Lists -/

theorem map_fst_indexed (i : Nat) (items : List Value) :
    (indexed i items).map (·.1) = (List.range' i items.length).map fun j : Nat => .int j := by
  induction items generalizing i with
  | nil => rfl
  | cons v vs ih => rw [indexed, List.map_cons, ih, List.length_cons, List.range'_succ, List.map_cons]

theorem exists_of_mem_indexed {p : Value × Value} {items : List Value} {i : Nat}
    (h : p ∈ indexed i items) : ∃ j : Nat, p.1 = .int (i + j : Nat) ∧ items[j]? = some p.2 := by
  induction items generalizing i with
  | nil => cases h
  | cons v vs ih =>
    rcases List.mem_cons.1 h with rfl | h
    · exact ⟨0, rfl, rfl⟩
    · obtain ⟨j, hkey, hitem⟩ := ih h
      refine ⟨j + 1, ?_, hitem⟩
      rw [hkey, Nat.add_right_comm, Nat.add_assoc]

theorem visits_list (items : List Value) : (Value.list items).Visits (indices items.length) := by
  refine ⟨indexed 0 items, rfl, ?_, fun p hp => ?_⟩
  · rw [map_fst_indexed, indices, List.range_eq_range']
  · obtain ⟨j, hkey, hitem⟩ := exists_of_mem_indexed hp
    rw [hkey, Nat.zero_add, index_key, item, at?_natCast, hitem]
    rfl

theorem length_indices (n : Nat) : (indices n).length = n := by
  rw [indices, List.length_map, List.length_range]

/-- A loop over a list visits as many pairs as the list has elements. -/
theorem visits_list_iff {items : List Value} {n : Nat} :
    (Value.list items).Visits (indices n) ↔ items.length = n := by
  refine ⟨fun h => ?_, fun h => h ▸ visits_list items⟩
  obtain ⟨ps, hps, hkeys, -⟩ := h
  obtain ⟨ps', hps', hkeys', -⟩ := visits_list items
  cases hps.symm.trans hps'
  rw [← length_indices items.length, ← hkeys', hkeys, length_indices]

/-! ## Maps -/

theorem visits_map {entries : List (String × Value)} (h : (Table.names entries).Nodup) :
    (Value.map entries).Visits ((Table.names (Table.inOrder entries)).map text) := by
  refine ⟨(Table.inOrder entries).map fun e => (text e.1, e.2), rfl, ?_, fun p hp => ?_⟩
  · rw [Table.names, List.map_map, List.map_map]
    rfl
  · obtain ⟨⟨name, v⟩, hmem, rfl⟩ := List.mem_map.1 hp
    have hentry := Table.get?_of_mem h ((Table.inOrder_perm entries).mem_iff.1 hmem)
    rw [index_key, text, item, entry, hentry]
    rfl

theorem index_missing {entries : List (String × Value)} {name : String} (safe : Bool)
    (h : name ∉ Table.names entries) :
    Function.index [.map entries, .string name safe] = .ok .undefined := by
  have hnone : Table.get? name entries = Option.none := by
    rw [← Table.contains_iff, Table.contains] at h
    simpa using h
  rw [index_key, item, entry, hnone]
  rfl

/-! ## Integers -/

theorem visited_int {n : Int} (h : 0 ≤ n) :
    (Value.int n).visited = .ok ((indices n.toNat).map fun i => (i, i)) := by
  unfold visited pairs
  dsimp only
  rw [if_pos h, indices, List.map_map]
  rfl

theorem visited_negative {n : Int} (h : ¬ 0 ≤ n) :
    (Value.int n).visited = .error (.notIterable (.int n)) := by
  unfold visited pairs
  dsimp only
  rw [if_neg h]
  rfl

/-! ## All values -/

theorem partsAgree_map {entries : List (String × Value)} (h : (Table.names entries).Nodup) :
    (Value.map entries).PartsAgree := by
  have hperm : (Table.names (Table.inOrder entries)).Perm (Table.names entries) :=
    (Table.inOrder_perm entries).map _
  refine ⟨Table.names (Table.inOrder entries), hperm, visits_map h, ?_, ?_, fun name safe hname => ?_⟩
  · exact List.pairwise_map.2 ((Table.sorted_inOrder h).imp bytes_lt)
  · rw [hperm.length_eq, Table.names, List.length_map]
    rfl
  · exact index_missing safe fun hmem => hname (hperm.mem_iff.2 hmem)

theorem partsAgree_of_nodup {v : Value} (h : ∀ entries, v = .map entries → (Table.names entries).Nodup) :
    v.PartsAgree := by
  cases v with
  | undefined => rfl
  | none => rfl
  | bool b => rfl
  | float x => rfl
  | fallback template => rfl
  | int n =>
    change if 0 ≤ n then _ else _
    split
    · next hn => exact visited_int hn
    · next hn => exact visited_negative hn
  | list items =>
    refine ⟨fun n => ?_, rfl, itemsBelow_list items⟩
    have hlen : Function.len [.list items] = .ok (.int items.length) := rfl
    rw [visits_list_iff, hlen, Except.ok.injEq, Value.int.injEq, Int.natCast_inj]
  | map entries => exact partsAgree_map (h entries rfl)
  | string s safe =>
    refine ⟨rfl, itemsBelow_string s safe, fun i b hb => ?_, rfl⟩
    rw [index_key, item, at?_natCast, hb]
    rfl

/-- A well formed value has no map with two entries for a name. -/
theorem WellFormed.partsAgree {v : Value} (h : v.WellFormed) : v.PartsAgree :=
  partsAgree_of_nodup fun _ hv => (hv ▸ h).nodup_names

/-- **The length of a value, its items and the pairs of a loop agree**, and a loop visits exactly these
pairs: it has one pass for each of them, it runs its other nodes if there is none, and it fails for a
value that has no pairs to visit. A map has one entry for a name, in any order. -/
theorem parts_agree {v : Value} (h : ∀ entries, v = .map entries → (Table.names entries).Nodup) :
    v.PartsAgree ∧ ∀ (targets : List String) (body otherwise : Run PUnit),
      (Run.lift v.pairs >>= Eval.loop targets body otherwise) = match v.visited with
        | .error c => Run.fail c
        | .ok [] => otherwise
        | .ok (p :: ps) => Eval.passes targets body (p :: ps) := by
  refine ⟨partsAgree_of_nodup h, fun targets body otherwise => ?_⟩
  unfold visited
  cases v.pairs with
  | error c => rfl
  | ok ps =>
    have hloop : (Run.lift (.ok ps) >>= Eval.loop targets body otherwise) =
      Eval.loop targets body otherwise ps := rfl
    rw [hloop, Eval.loop_eq, Except.map]
    cases ps.toList with
    | nil => rfl
    | cons p ps => rfl

/-- Two entries under names of two bytes and of one, not in order. -/
def twoNames : List (String × Value) := [("é", .text "ab"), ("z", .list [.int 7, .none])]

theorem parts_agree_twoNames : (Table.names twoNames).Nodup ∧ (Value.map twoNames).PartsAgree ∧
    (Value.map twoNames).visited = .ok [(.text "z", .list [.int 7, .none]), (.text "é", .text "ab")] ∧
    Function.index [.map twoNames, .text "z", .int 0] = .ok (.int 7) := by
  have hnames : (Table.names twoNames).Nodup := by
    unfold Table.names twoNames
    decide
  have horder : Table.inOrder twoNames = [("z", .list [.int 7, .none]), ("é", .text "ab")] := by
    simp [Table.inOrder, twoNames, List.mergeSort, List.MergeSort.Internal.splitInTwo]
  refine ⟨hnames, (parts_agree fun entries h => ?_).1, ?_, rfl⟩
  · cases h
    exact hnames
  · rw [visited, pairs, horder]
    rfl

end Value

end Stencil
