import Stencil.Fault

/-!
# Looking into values

* `entry` and `field` look up an entry of a map by name, `item` an element by index or key.
* `Pairs` is what a `range` runs over: the elements of a list, the entries of a map, or the numbers
  below an integer, which are never listed.
* `pairs` gives the pairs of a value. Those of a map come in the order of their names, whatever the order
  of its entries is.
-/

namespace Stencil.Value

/-! ## Entries and items -/

/-- The entry of a map; undefined for other values and names. -/
def entry (name : String) : Value → Value
  | .map entries => (Table.get? name entries).getD .undefined
  | _ => .undefined

/-- A field of the data: an entry of a map. What is missing has no fields, and other values cannot be
asked for one. -/
def field (name : String) (v : Value) : Outcome Value :=
  match v with
  | .map _ => return v.entry name
  | .undefined | .none => return .undefined
  | _ => throw (.fieldOf name v.kind)

/-- A chain of fields. -/
def fields (v : Value) : List String → Outcome Value
  | [] => return v
  | name :: names => do fields (← v.field name) names

/-- An element of a list that is not negative. -/
def at? {α : Type} (items : List α) (i : Int) : Option α := if 0 ≤ i then items[i.toNat]? else Option.none

/-- An element: of a list or of the bytes of a string by index, of a map by key. -/
def item (v key : Value) : Outcome Value :=
  match v, key with
  | .list items, .int i =>
    match at? items i with
    | some v => return v
    | Option.none => throw (.indexOutOfRange i)
  | .string s _, .int i =>
    match at? (bytes s) i with
    | some b => return .int b.toNat
    | Option.none => throw (.indexOutOfRange i)
  | .map _, .string name _ => return v.entry name
  | .undefined, _ | .none, _ => return .undefined
  | _, _ => throw (.indexOf v.kind key.kind)

/-! ## Iteration -/

/-- Keys with the elements under them. -/
inductive Pairs where
  /-- A list of pairs. -/
  | listed (pairs : List (Value × Value))
  /-- The pairs of each number below `n` with itself. -/
  | below (n : Nat)

namespace Pairs

/-- The pairs, listed. -/
def toList : Pairs → List (Value × Value)
  | listed ps => ps
  | below n => (List.range n).map fun i : Nat => (.int i, .int i)

end Pairs

/-- The items of a list, each with its index counted from `i`. -/
def indexed (i : Nat) : List Value → List (Value × Value)
  | [] => []
  | v :: vs => (.int i, v) :: indexed (i + 1) vs

/-- The pairs that a `range` over a value runs through. -/
def pairs (v : Value) : Outcome Pairs :=
  match v with
  | .list items => return .listed (indexed 0 items)
  | .map entries => return .listed ((Table.inOrder entries).map fun e => (text e.1, e.2))
  | .int n => if 0 ≤ n then return .below n.toNat else throw (.notIterable v)
  | .undefined | .none => return .listed []
  | _ => throw (.notIterable v)

end Stencil.Value
