import Stencil.Number.Binary64
import Stencil.Table

/-!
# JSON values

The data that templates are rendered with arrives as JSON, and values inside a script are written
as JSON. A number is an integer of 64 bits, with a sign or without, or a binary floating point number;
the entries of an object are a table, so a listing is in the order of the names.
-/

namespace Stencil

/-- A JSON value. -/
inductive Json where
  | null
  | bool (b : Bool)
  | int (n : Int)
  | float (x : Binary64)
  | string (s : String)
  | array (items : List Json)
  | object (entries : List (String × Json))
  deriving Inhabited

namespace Json

/-- Whether an integer has 64 bits, with a sign or without. -/
def fits (n : Int) : Bool := -0x8000000000000000 ≤ n && n < 0x10000000000000000

end Json

end Stencil
