import Stencil.Value.Basic

/-!
# Scopes

The data and the variables that a template sees while it is rendered. Branches, loops and the passes
of a loop have scopes of their own; a variable lives as long as the scope that it was declared in.

* `Scopes` lists the scopes, the innermost first, and each lists its variables, the latest first.
* `lookup?` and `assign?` find the innermost variable of a name.
-/

namespace Stencil

/-- The data of a scope and its variables. -/
structure Scope where
  dot : Value
  bindings : List (String × Value) := []

/-- The scopes of a template. -/
abbrev Scopes := List Scope

namespace Scopes

/-- The outermost scope, in which the variable without a name is the data. -/
def start (dot : Value) : Scopes := [{ dot, bindings := [("", dot)] }]

/-- The current data. -/
def dot : Scopes → Value
  | [] => .undefined
  | s :: _ => s.dot

/-- Opens a scope with new data. -/
def push (dot : Value) (ss : Scopes) : Scopes := { dot } :: ss

/-- Opens a scope that keeps the data. -/
def pushSame (ss : Scopes) : Scopes := push (dot ss) ss

/-- Declares a variable in the innermost scope. -/
def declare (name : String) (v : Value) : Scopes → Scopes
  | [] => []
  | s :: ss => { s with bindings := (name, v) :: s.bindings } :: ss

/-- Sets the first of some variables that has the name. -/
def setFirst? (name : String) (v : Value) : List (String × Value) → Option (List (String × Value))
  | [] => none
  | (n, w) :: vs => if n = name then some ((n, v) :: vs) else (setFirst? name v vs).map ((n, w) :: ·)

/-- Sets the innermost variable of a name. -/
def assign? (name : String) (v : Value) : Scopes → Option Scopes
  | [] => none
  | s :: ss =>
    match setFirst? name v s.bindings with
    | some bindings => some ({ s with bindings } :: ss)
    | none => (assign? name v ss).map (s :: ·)

/-- The value of the first of some variables that has the name. -/
def first? (name : String) : List (String × Value) → Option Value
  | [] => none
  | (n, v) :: vs => if n = name then some v else first? name vs

/-- The value of the innermost variable of a name. -/
def lookup? (name : String) : Scopes → Option Value
  | [] => none
  | s :: ss => (first? name s.bindings).or (lookup? name ss)

end Scopes

end Stencil
