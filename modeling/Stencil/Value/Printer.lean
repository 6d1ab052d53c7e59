import Stencil.Value.Basic
import Stencil.Number.Layout
import Stencil.Text.Quoted

/-!
# Texts of values

* `Value.display` is what a pipeline prints: nothing for what is missing or none, `[a b]` for a list
  and `map[k:v]` for a map.
* `Value.debug` is what messages show: strings in quotes, lists and maps with commas.
-/

namespace Stencil.Value

/-! ## Output -/

/-- The text of a floating point number in output. -/
def floatText (x : Binary64) : String :=
  if x.isInfinite then (if x.negative then "-Inf" else "+Inf") else Layout.plain.text x

/-- The word for a truth value. -/
def boolText (b : Bool) : String := if b then "true" else "false"

mutual

/-- The text that a value prints as. -/
def display : Value → String
  | .undefined | .none => ""
  | .bool b => boolText b
  | .int n => toString n
  | .float x => floatText x
  | .string s _ => s
  | .list items => "[" ++ displayItems items ++ "]"
  | .map entries => "map[" ++ displayEntries entries ++ "]"
  | .fallback template => template

/-- The items of a list with spaces between them. -/
def displayItems : List Value → String
  | [] => ""
  | [v] => display v
  | v :: vs => display v ++ " " ++ displayItems vs

/-- The entries of a map with spaces between them. -/
def displayEntries : List (String × Value) → String
  | [] => ""
  | [(k, v)] => k ++ ":" ++ display v
  | (k, v) :: es => k ++ ":" ++ display v ++ " " ++ displayEntries es

end

/-! ## Messages -/

mutual

/-- The text of a value in messages. -/
def debug : Value → String
  | .undefined => "undefined"
  | .none => "none"
  | .bool b => boolText b
  | .int n => toString n
  | .float x => Layout.debug.text x
  | .string s _ => Text.quoted s
  | .list items => "[" ++ debugItems items ++ "]"
  | .map entries => "\x7b" ++ debugEntries entries ++ "\x7d"
  | .fallback template => "<fallback " ++ Text.quoted template ++ ">"

/-- The items of a list with commas between them. -/
def debugItems : List Value → String
  | [] => ""
  | [v] => debug v
  | v :: vs => debug v ++ ", " ++ debugItems vs

/-- The entries of a map with commas between them. -/
def debugEntries : List (String × Value) → String
  | [] => ""
  | [(k, v)] => Text.quoted k ++ ": " ++ debug v
  | (k, v) :: es => Text.quoted k ++ ": " ++ debug v ++ ", " ++ debugEntries es

end

end Stencil.Value
