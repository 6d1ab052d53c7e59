import Stencil.Value.Basic

/-!
# The order of values

* `Value.compare` orders all values: strings by their bytes, numbers by size, lists and maps from
  left to right, and values that no rule compares by their kinds.
* `compare?` is the order that the comparison functions use: numbers with numbers and strings with
  strings only.
* `agree` is the equality that they use: values of different kinds differ, except that undefined and
  none agree.
-/

namespace Stencil.Value

/-! ## Numbers -/

/-- A number as a floating point number. -/
def toBinary64? : Value → Option Binary64
  | .int n => some (Binary64.ofInt n)
  | .float x => some x
  | _ => Option.none

/-- Two numbers or two truth values brought to one type. -/
inductive Coerced where
  | ints (a b : Int)
  | floats (a b : Binary64)

/-- Brings two values to one type: integers stay integers unless the other is a floating point
number, and truth values count as zero and one. -/
def coerce? : Value → Value → Option Coerced
  | .int a, .int b => some (.ints a b)
  | .float a, .float b => some (.floats a b)
  | .float a, b => b.toBinary64?.map (.floats a)
  | a, .float b => a.toBinary64?.map (.floats · b)
  | .bool a, .bool b => some (.ints a.toNat b.toNat)
  | _, _ => Option.none

/-! ## The total order -/

/-- The order of two values that are not both lists or both maps. -/
def compareScalar : Value → Value → Ordering
  | .string a _, .string b _ => Ord.compare a b
  | .fallback a, .fallback b => Ord.compare a b
  | a, b =>
    let byValue := match coerce? a b with
      | some (.ints m n) => Ord.compare m n
      | some (.floats x y) => x.totalCompare y
      | Option.none => .eq
    byValue.then (Ord.compare a.kind.rank b.kind.rank)

mutual

/-- The order of all values. -/
def compare : Value → Value → Ordering
  | .list as, .list bs => compareItems as bs
  | .map as, .map bs => compareEntries as bs
  | a, b => compareScalar a b

/-- The order of lists: the first difference decides, and a list comes before its extensions. -/
def compareItems : List Value → List Value → Ordering
  | [], [] => .eq
  | [], _ :: _ => .lt
  | _ :: _, [] => .gt
  | a :: as, b :: bs => (compare a b).then (compareItems as bs)

/-- The order of maps, as lists of entries. -/
def compareEntries : List (String × Value) → List (String × Value) → Ordering
  | [], [] => .eq
  | [], _ :: _ => .lt
  | _ :: _, [] => .gt
  | (k, a) :: as, (l, b) :: bs =>
    ((Ord.compare k l).then (compare a b)).then (compareEntries as bs)

end

/-- Whether two values are equal in the order. -/
def same (a b : Value) : Bool := compare a b = .eq

/-- Puts a value into a decreasing list, in front of the first value that it is not less than. -/
def insertSorted (v : Value) : List Value → List Value
  | [] => [v]
  | w :: ws => if compare v w = .lt then w :: insertSorted v ws else v :: w :: ws

/-- The values in increasing order; equal ones keep their places. Each value moves down past the
larger ones before it, so that the result is settled by neighbours also where equality is not
transitive: two integers may be equal to one floating point number. -/
def sort (values : List Value) : List Value :=
  (values.foldl (fun sorted v => insertSorted v sorted) []).reverse

/-! ## The order of the comparison functions -/

/-- The order of two strings or two numbers. -/
def compare? : Value → Value → Option Ordering
  | .string a _, .string b _ => some (Ord.compare a b)
  | .bool _, _ => Option.none
  | _, .bool _ => Option.none
  | a, b =>
    match coerce? a b with
    | some (.ints m n) => some (Ord.compare m n)
    | some (.floats x y) => x.compare? y
    | Option.none => Option.none

/-- Whether there is no value. -/
def Kind.isMissing : Kind → Bool
  | .undefined | .none => true
  | _ => false

/-- The equality of the comparison functions. -/
def agree (a b : Value) : Bool :=
  if a.kind.isMissing && b.kind.isMissing then true
  else a.kind = b.kind && same a b

end Stencil.Value
