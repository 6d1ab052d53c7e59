import Stencil.Number.Binary64
import Stencil.Table

/-!
# Values

The dynamic values that pipelines compute with.

* `Value` is the type, `Value.Kind` what messages call its cases.
* `isTrue` is the truth test of branches, `isSafe` marks text that is not escaped again.
* `ofInt` is the value of an integer of any size: integers of values have 64 bits.
* `size?` is the length of a string (in bytes), a list or a map.

The entries of a map are a `Table`, so they come in the order of their names.
-/

namespace Stencil

/-- A value. -/
inductive Value where
  /-- The value of what is missing. -/
  | undefined
  | none
  | bool (b : Bool)
  | int (n : Int)
  | float (x : Binary64)
  /-- A text; a safe one is written without escaping. -/
  | string (s : String) (safe : Bool)
  | list (items : List Value)
  | map (entries : List (String × Value))
  /-- The name of the template that a slot falls back to. -/
  | fallback (template : String)
  deriving Inhabited

namespace Value

/-- What kind of value there is. -/
inductive Kind where
  | undefined
  | none
  | bool
  | number
  | string
  | list
  | map
  deriving DecidableEq

namespace Kind

/-- The name of a kind in messages. -/
def name : Kind → String
  | .undefined => "undefined"
  | .none => "none"
  | .bool => "bool"
  | .number => "number"
  | .string => "string"
  | .list => "sequence"
  | .map => "map"

/-- The place of a kind among the kinds. -/
def rank : Kind → Nat
  | .undefined => 0
  | .none => 1
  | .bool => 2
  | .number => 3
  | .string => 4
  | .list => 5
  | .map => 6

end Kind

/-- The kind of a value; a fallback counts as a string. -/
def kind : Value → Kind
  | .undefined => .undefined
  | .none => .none
  | .bool _ => .bool
  | .int _ | .float _ => .number
  | .string .. | .fallback _ => .string
  | .list _ => .list
  | .map _ => .map

/-- Whether an integer has 64 bits with its sign. -/
def fits (n : Int) : Bool := -0x8000000000000000 ≤ n && n < 0x8000000000000000

/-- The value of an integer; one that does not fit becomes the nearest floating point number. -/
def ofInt (n : Int) : Value := if fits n then .int n else .float (.ofInt n)

theorem ofInt_of_fits {n : Int} (h : fits n = true) : ofInt n = .int n := if_pos h

/-- A text that is escaped where it is written. -/
def text (s : String) : Value := .string s false

/-- A text that is written as it is. -/
def safeText (s : String) : Value := .string s true

/-- The truth of a value: zero and what is missing, none or empty is false. -/
def isTrue : Value → Bool
  | .undefined | .none => false
  | .bool b => b
  | .int n => n ≠ 0
  | .float x => !x.isZero
  | .string s _ => s ≠ ""
  | .list items => !items.isEmpty
  | .map entries => !entries.isEmpty
  | .fallback _ => true

/-- Whether a value is written without escaping. -/
def isSafe : Value → Bool
  | .string _ safe => safe
  | _ => false

/-- The text of a string; a fallback is no text. -/
def asString? : Value → Option String
  | .string s _ => some s
  | _ => Option.none

/-- The template of a fallback. -/
def asFallback? : Value → Option String
  | .fallback template => some template
  | _ => Option.none

/-- The bytes of a text. -/
def bytes (s : String) : List UInt8 := s.toUTF8.data.toList

/-- The number of bytes, items or entries. -/
def size? : Value → Option Nat
  | .string s _ => some (bytes s).length
  | .list items => some items.length
  | .map entries => some entries.length
  | _ => Option.none

end Value

end Stencil
