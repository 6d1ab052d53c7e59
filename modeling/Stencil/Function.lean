import Stencil.Html.Escape
import Stencil.Value.Access
import Stencil.Value.Order

/-!
# Functions

The functions that pipelines can call. A function takes the values of its arguments, the value passed
on by a pipe last.

* `Function` is the type; an environment holds a table of them. A function may fail with a fault that
  has a place already, one of a template that it reads itself for instance.
* `Function.Builtin` are the functions that fail with a cause alone, and `Builtin.function` is such a
  one as a function.
* `Function.standard` lists the functions of a new environment under their names.
-/

namespace Stencil

/-- A function of pipelines. -/
abbrev Function := List Value → Except Fault Value

namespace Function

/-- A function that fails with a cause. -/
abbrev Builtin := List Value → Outcome Value

/-- A function whose faults have no place. -/
def Builtin.function (f : Builtin) : Function := fun args => (f args).raised

/-! ## Logic and comparison -/

/-- Requires an exact number of arguments. -/
def exactly (name : String) (n : Nat) (args : List Value) : Outcome PUnit :=
  if args.length = n then return () else throw (.arity name n args.length)

/-- The first argument with the given truth, or else the last. -/
def firstWith (truth : Bool) : Value → List Value → Value
  | v, [] => v
  | v, w :: ws => if v.isTrue = truth then v else firstWith truth w ws

/-- The first false argument, or the last. -/
def and : Builtin
  | [] => throw (.minArity "and" 1 0)
  | v :: vs => return firstWith false v vs

/-- The first true argument, or the last. -/
def or : Builtin
  | [] => throw (.minArity "or" 1 0)
  | v :: vs => return firstWith true v vs

/-- The negation of the truth of an argument. -/
def not : Builtin
  | [v] => return .bool !v.isTrue
  | args => throw (.arity "not" 1 args.length)

/-- Whether a value has parts. -/
def isComposite (v : Value) : Bool :=
  match v.kind with
  | .list | .map => true
  | _ => false

/-- Whether a value agrees with one of some others. -/
def agreesWithAny (v : Value) : List Value → Outcome Bool
  | [] => return false
  | w :: ws =>
    if isComposite w || isComposite v then throw .notBasic
    else if v.agree w then return true
    else agreesWithAny v ws

/-- Whether the first argument agrees with one of the others. -/
def eq : Builtin
  | v :: w :: ws => do return .bool (← agreesWithAny v (w :: ws))
  | args => throw (.minArity "eq" 2 args.length)

/-- Whether two arguments disagree. -/
def ne (args : List Value) : Outcome Value := do
  exactly "ne" 2 args
  let v ← eq args
  return .bool !v.isTrue

/-- The cause where two values have no order. Numbers are shown as they were compared, so both as
floating point numbers: integers always have an order. -/
def unordered (v w : Value) : Cause :=
  match v.coerce? w with
  | some (.floats x y) => .incomparable (.float x) (.float y)
  | _ => .incomparable v w

/-- A comparison of two arguments. -/
def ordering (name : String) (holds : Ordering → Bool) : Builtin
  | [v, w] =>
    match v.compare? w with
    | some o => return .bool (holds o)
    | none => throw (unordered v w)
  | args => throw (.arity name 2 args.length)

/-- Whether the first argument is less than the second. -/
def lt : Builtin := ordering "lt" (· = .lt)

/-- Whether the first argument is at most the second. -/
def le : Builtin := ordering "le" (· ≠ .gt)

/-- Whether the first argument is greater than the second. -/
def gt : Builtin := ordering "gt" (· = .gt)

/-- Whether the first argument is at least the second. -/
def ge : Builtin := ordering "ge" (· ≠ .lt)

/-! ## Parts -/

/-- The length of a string in bytes, of a list or of a map. -/
def len : Builtin
  | [v] =>
    match v.size? with
    | some n => return .int n
    | none => throw (.sizeOf v.kind)
  | args => throw (.arity "len" 1 args.length)

/-- The item under a chain of keys. -/
def itemAt (v : Value) : List Value → Outcome Value
  | [] => return v
  | key :: keys => do itemAt (← v.item key) keys

/-- The item of the first argument under the keys after it. -/
def index : Builtin
  | [] => throw (.minArity "index" 1 0)
  | v :: keys => itemAt v keys

/-! ## Printing -/

/-- The texts of values after `last`, with a space between two values if neither is a string, or
always. -/
def printFrom (always : Bool) (last : Value) : List Value → String
  | [] => ""
  | v :: vs =>
    let gap := always || (v.kind ≠ .string && last.kind ≠ .string)
    (if gap then " " else "") ++ v.display ++ printFrom always v vs

/-- The texts of some values in a row. -/
def printed (always : Bool) : List Value → String
  | [] => ""
  | v :: vs => v.display ++ printFrom always v vs

/-- The arguments in a row, with spaces where neither side is a string. -/
def print : Builtin := fun args => return .text (printed false args)

/-- The arguments with spaces between them and a line feed at the end. -/
def println : Builtin := fun args => return .text (printed true args ++ "\n")

/-- The printed arguments escaped for the body, as safe text. -/
def html : Builtin := fun args => return .safeText (Escape.html (printed false args))

/-- The printed arguments as safe text. -/
def safe : Builtin := fun args => return .safeText (printed false args)

/-- A character as `\u` and four upper case hexadecimal digits, or more if it needs them. -/
def unitEscape (c : Char) : List Char :=
  let digits := (Nat.toDigits 16 c.toNat).map Char.toUpper
  ['\\', 'u'] ++ List.replicate (4 - digits.length) '0' ++ digits

/-- One character of a string literal in a script. -/
def jsChar (c : Char) : List Char :=
  if c = '\\' || c = '\'' || c = '"' then ['\\', c]
  else if c = '<' || c = '>' || c = '&' || c = '=' || c.toNat < 0x20 then unitEscape c
  else [c]

/-- The printed arguments escaped for a string literal in a script. -/
def js : Builtin := fun args =>
  return .text (String.ofList ((printed false args).toList.flatMap jsChar))

/-- The bytes that stay as they are in the query of an address. -/
def isQueryByte (b : UInt8) : Bool :=
  let c := Char.ofNat b.toNat
  c.isAlphanum || c = '.' || c = '-' || c = '_' || c = '~'

/-- One byte of the query of an address. -/
def queryByte (b : UInt8) : List Char :=
  if isQueryByte b then [Char.ofNat b.toNat]
  else ['%', (Nat.digitChar (b.toNat / 16)).toUpper, (Nat.digitChar (b.toNat % 16)).toUpper]

/-- The printed arguments encoded for the query of an address. -/
def urlquery : Builtin := fun args =>
  return .text (String.ofList ((Value.bytes (printed false args)).flatMap queryByte))

/-! ## The table -/

/-- The functions that there are from the start. -/
def builtins : List (String × Builtin) := [
  ("and", and), ("or", or), ("not", not), ("eq", eq), ("ne", ne), ("lt", lt), ("le", le),
  ("gt", gt), ("ge", ge), ("len", len), ("index", index), ("print", print), ("println", println),
  ("html", html), ("js", js), ("safe", safe), ("urlquery", urlquery)]

/-- The functions of a new environment. -/
def standard : Table Function := Table.ofList (builtins.map fun b => (b.1, b.2.function))

end Function

end Stencil
