import Stencil.Outline.Line

/-!
# Nesting by indentation

The lines that follow a line with a greater indentation, up to the first that has not, are nested
below it. Taken for every line at once this turns a list of lines into a list of trees, built from
the last line to the first.

* `Nest` is a line with what is nested below it.
* `Nest.ofLines` builds the trees and `Nest.lines` lists the lines again, in their order.
-/

namespace Stencil.Outline

/-- A line with the lines that are nested below it. -/
inductive Nest where
  | mk (line : Line) (nested : List Nest)

namespace Nest

/-- The line at the top. -/
def line : Nest → Line
  | .mk line _ => line

/-- What is nested below the line. -/
def nested : Nest → List Nest
  | .mk _ nested => nested

/-- Whether a tree is nested below a line at `level` in front of it. -/
def isBelow (level : Nat) (n : Nest) : Bool := level < n.line.indent

/-- Puts a line in front of the trees that follow it: the first of them that are indented deeper are
nested below it. -/
def cons (l : Line) (following : List Nest) : List Nest :=
  .mk l (following.takeWhile (isBelow l.indent)) :: following.dropWhile (isBelow l.indent)

/-- The trees of a list of lines. -/
def ofLines (ls : List Line) : List Nest := ls.foldr cons []

mutual

/-- The lines of a tree in their order. -/
def lines : Nest → List Line
  | .mk line nested => line :: linesOf nested

/-- The lines of some trees in their order. -/
def linesOf : List Nest → List Line
  | [] => []
  | n :: ns => lines n ++ linesOf ns

end

theorem linesOf_append (ms ns : List Nest) : linesOf (ms ++ ns) = linesOf ms ++ linesOf ns := by
  induction ms with
  | nil => rfl
  | cons m ms ih => simp [linesOf, ih]

/-- Building trees loses no line and keeps their order. -/
theorem linesOf_ofLines (ls : List Line) : linesOf (ofLines ls) = ls := by
  induction ls with
  | nil => rfl
  | cons l ls ih =>
    simp only [ofLines, List.foldr_cons] at ih ⊢
    simp only [cons, linesOf, lines, List.cons_append, ← linesOf_append,
      List.takeWhile_append_dropWhile, ih]

end Nest

end Stencil.Outline
