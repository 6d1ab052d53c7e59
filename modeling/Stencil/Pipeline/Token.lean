import Stencil.Number.Binary64

/-!
# Tokens of a pipeline

The words and signs of a statement, and how messages call them.
-/

namespace Stencil

/-- A token of a pipeline. -/
inductive Token where
  /-- The current data, `.`. -/
  | dot
  /-- A field, `.Name`. -/
  | field (name : String)
  /-- A variable, `$name`; a single `$` has the empty name. -/
  | variable (name : String)
  /-- A function name or one of the words `true`, `false` and `nil`. -/
  | word (name : String)
  /-- A string without escapes. -/
  | verbatim (s : String)
  /-- A string that was written with escapes. -/
  | string (s : String)
  | int (n : Int)
  | float (x : Binary64)
  | pipe
  /-- `:=` -/
  | declare
  /-- `=` -/
  | assign
  | comma
  | openParen
  | closeParen
  deriving DecidableEq

/-- What messages call a token. -/
def Token.name : Token → String
  | .dot => "`.`"
  | .field name => "field `." ++ name ++ "`"
  | .variable name => "variable `$" ++ name ++ "`"
  | .word name => "identifier `" ++ name ++ "`"
  | .verbatim _ | .string _ => "string"
  | .int _ => "integer"
  | .float _ => "float"
  | .pipe => "`|`"
  | .declare => "`:=`"
  | .assign => "`=`"
  | .comma => "`,`"
  | .openParen => "`(`"
  | .closeParen => "`)`"

/-- A token with the place of its text in the statement, in bytes. Places have 32 bits, and in a longer
statement they begin again from zero. -/
structure Lexeme where
  token : Token
  start : UInt32
  stop : UInt32
  deriving DecidableEq

end Stencil
