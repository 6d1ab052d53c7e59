import Stencil.Value.Basic
import Stencil.Json.Basic

/-!
# Values as data

The passage between values and JSON. JSON has no undefined value, no safe text, no fallback and no
infinite number, so a value that passes through it loses these (`Value.toData`), and a value that
came from JSON stays as it is. An integer of JSON that has more than 64 bits with its sign comes back as
a floating point number.

* `toJson` and `ofJson` are the two directions.
* `toData` is the value that comes back.
* `merge` puts maps together.
-/

namespace Stencil.Value

mutual

/-- A value as JSON. -/
def toJson : Value → Json
  | .undefined | .none => .null
  | .bool b => .bool b
  | .int n => .int n
  | .float x => if x.isFinite then .float x else .null
  | .string s _ => .string s
  | .list items => .array (itemsToJson items)
  | .map entries => .object (entriesToJson entries)
  | .fallback template => .string template

/-- The items of a list as JSON. -/
def itemsToJson : List Value → List Json
  | [] => []
  | v :: vs => toJson v :: itemsToJson vs

/-- The entries of a map as JSON. -/
def entriesToJson : List (String × Value) → List (String × Json)
  | [] => []
  | (k, v) :: es => (k, toJson v) :: entriesToJson es

end

mutual

/-- JSON as a value. -/
def ofJson : Json → Value
  | .null => .none
  | .bool b => .bool b
  | .int n => ofInt n
  | .float x => .float x
  | .string s => text s
  | .array items => .list (itemsOfJson items)
  | .object entries => .map (Table.ofList (entriesOfJson entries))

/-- The items of an array as values. -/
def itemsOfJson : List Json → List Value
  | [] => []
  | j :: js => ofJson j :: itemsOfJson js

/-- The entries of an object as values. -/
def entriesOfJson : List (String × Json) → List (String × Value)
  | [] => []
  | (k, j) :: es => (k, ofJson j) :: entriesOfJson es

end

/-- What is left of a value as data. -/
def toData (v : Value) : Value := ofJson v.toJson

/-- The entries of `later` that `earlier` does not have are added to it. -/
def mergeEntries (earlier later : Table Value) : Table Value :=
  later.foldl (fun t e => if Table.contains e.1 t then t else Table.insert e.1 e.2 t) earlier

/-- One map of the entries of all maps among the values; an earlier entry of a name wins. -/
def merge (values : List Value) : Value :=
  .map (values.foldl (fun t v => match v with
    | .map entries => mergeEntries t entries
    | _ => t) [])

end Stencil.Value
