import Stencil.Json.Basic
import Stencil.Number.Decimal
import Stencil.Text.Units

/-!
# Reading JSON

A text is first split into tokens; the containers that are open at a token are kept in a list of
frames, so that reading is one pass over the tokens.

* `Json.number?` reads a number: an integer if it is written as one and has 64 bits, with a sign or
  without, and a floating point number otherwise; `-0` is the floating point zero with a sign.
* `Json.tokens?` splits a text, `Json.ofTokens?` puts the tokens together.
* `Json.parse?` reads a whole text. Of two entries of an object with one name the later counts.
-/

namespace Stencil.Json

open Text (Piece joinUnits)

/-- A token of JSON. -/
inductive Token where
  /-- A value that is neither a container nor a string. -/
  | atom (j : Json)
  | text (s : String)
  | openArray
  | closeArray
  | openObject
  | closeObject
  | comma
  | colon

/-! ## Tokens -/

/-- Whether a character can be part of a number. -/
def isNumeral (c : Char) : Bool := c.isDigit || c = '-' || c = '+' || c = '.' || c = 'e' || c = 'E'

/-- The number that a text spells. -/
def number? (s : List Char) : Option Json := do
  let d ← Decimal.parse? s
  let whole := s.all fun c => c.isDigit || c = '-'
  let n : Int := if d.negative then -(d.digits : Int) else d.digits
  if whole && fits n && !(d.negative && d.digits = 0) then return .int n
  else return .float d.toBinary64

/-- The character that a letter escapes. -/
def escaped? : Char → Option Char
  | '"' => some '"'
  | '\\' => some '\\'
  | '/' => some '/'
  | 'b' => some '\x08'
  | 'f' => some '\x0c'
  | 'n' => some '\n'
  | 'r' => some '\r'
  | 't' => some '\t'
  | _ => none

/-- The pieces of a string after its opening quote, and what follows the closing one. -/
def pieces? : List Char → Option (List Piece × List Char)
  | [] => none
  | '"' :: s => some ([], s)
  | '\\' :: 'u' :: a :: b :: c :: d :: s => do
    let n ← digitsValue? 16 [a, b, c, d]
    let (ps, rest) ← pieces? s
    return (.unit n :: ps, rest)
  | '\\' :: c :: s => do
    let c ← escaped? c
    let (ps, rest) ← pieces? s
    return (.char c :: ps, rest)
  | c :: s => do
    let (ps, rest) ← pieces? s
    return (.char c :: ps, rest)

/-- A string after its opening quote, and what follows it. -/
def string? (s : List Char) : Option (List Char × List Char) := do
  let (ps, rest) ← pieces? s
  let cs ← joinUnits ps
  return (cs, rest)

theorem pieces?_length_lt {s rest : List Char} {ps : List Piece} (h : pieces? s = some (ps, rest)) :
    rest.length < s.length := by
  fun_induction pieces? s generalizing ps <;> simp_all [Option.bind_eq_some_iff] <;> grind

theorem string?_length_lt {s rest cs : List Char} (h : string? s = some (cs, rest)) :
    rest.length < s.length := by
  simp only [string?, bind, Option.bind_eq_some_iff, pure, Option.some.injEq] at h
  obtain ⟨⟨ps, r⟩, hp, cs', -, h⟩ := h
  obtain ⟨rfl, rfl⟩ := Prod.mk.inj h
  exact pieces?_length_lt hp

/-- The tokens of a text. -/
def tokens? : List Char → Option (List Token)
  | [] => some []
  | c :: s =>
    if c = ' ' || c = '\n' || c = '\r' || c = '\t' then tokens? s
    else if c = '[' then (tokens? s).map (.openArray :: ·)
    else if c = ']' then (tokens? s).map (.closeArray :: ·)
    else if c = '\x7b' then (tokens? s).map (.openObject :: ·)
    else if c = '\x7d' then (tokens? s).map (.closeObject :: ·)
    else if c = ',' then (tokens? s).map (.comma :: ·)
    else if c = ':' then (tokens? s).map (.colon :: ·)
    else if c = '"' then
      match h : string? s with
      | some (cs, rest) =>
        have := string?_length_lt h
        (tokens? rest).map (.text (String.ofList cs) :: ·)
      | none => none
    else if isNumeral c then
      match number? (c :: s.takeWhile isNumeral) with
      | some j =>
        have := (List.dropWhile_sublist (p := isNumeral) (l := s)).length_le
        (tokens? (s.dropWhile isNumeral)).map (.atom j :: ·)
      | none => none
    else
      let word := c :: s.takeWhile Char.isAlpha
      have := (List.dropWhile_sublist (p := Char.isAlpha) (l := s)).length_le
      let rest := tokens? (s.dropWhile Char.isAlpha)
      if word = "null".toList then rest.map (.atom .null :: ·)
      else if word = "true".toList then rest.map (.atom (.bool true) :: ·)
      else if word = "false".toList then rest.map (.atom (.bool false) :: ·)
      else none
  termination_by s => s.length

/-! ## Values -/

/-- A container part way through: what it holds already, the latest first. -/
inductive Frame where
  | array (done : List Json)
  | object (done : List (String × Json)) (name : String)

mutual

/-- Reads a value inside the open containers. -/
def value? (outer : List Frame) : List Token → Option Json
  | .atom j :: ts => resume? j outer ts
  | .text s :: ts => resume? (.string s) outer ts
  | .openArray :: .closeArray :: ts => resume? (.array []) outer ts
  | .openArray :: ts => value? (.array [] :: outer) ts
  | .openObject :: .closeObject :: ts => resume? (.object []) outer ts
  | .openObject :: .text name :: .colon :: ts => value? (.object [] name :: outer) ts
  | _ => none

/-- Continues after a value inside the open containers. -/
def resume? (j : Json) (outer : List Frame) : List Token → Option Json
  | [] => if outer.isEmpty then some j else none
  | .comma :: .text name :: .colon :: ts =>
    match outer with
    | .object done last :: k => value? (.object ((last, j) :: done) name :: k) ts
    | _ => none
  | .comma :: ts =>
    match outer with
    | .array done :: k => value? (.array (j :: done) :: k) ts
    | _ => none
  | .closeArray :: ts =>
    match outer with
    | .array done :: k => resume? (.array (j :: done).reverse) k ts
    | _ => none
  | .closeObject :: ts =>
    match outer with
    | .object done last :: k => resume? (.object (Table.ofList ((last, j) :: done).reverse)) k ts
    | _ => none
  | _ => none

end

/-- The value that a list of tokens spells. -/
def ofTokens? (ts : List Token) : Option Json := value? [] ts

/-- The value that a text spells. -/
def parse? (s : String) : Option Json := do
  let ts ← tokens? s.toList
  ofTokens? ts

end Stencil.Json
