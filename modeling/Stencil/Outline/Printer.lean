import Stencil.Delimited.Printer
import Stencil.Outline.Line

/-!
# Outlines of programs

An outline is written line by line, every line with the indentation of its level.

* `Plan` is a line with what is written below it, and `Plan.rowsOf` lists the lines with their levels.
* `Written strict rows source` says that `source` has these lines: a level is a tab or, unless
  indentation is strict, two spaces.
* `Outlines ps plans` says that the plans are an outline of a program.
-/

namespace Stencil

namespace Outline

/-- A line, and the lines that are written below it one level deeper. -/
inductive Plan where
  | mk (content : List Char) (nested : List Plan)

namespace Plan

mutual

/-- The lines of a plan with their levels. -/
def rows (level : Nat) : Plan → List (Nat × List Char)
  | .mk content nested => (level, content) :: rowsOf (level + 1) nested

/-- The lines of some plans with their levels. -/
def rowsOf (level : Nat) : List Plan → List (Nat × List Char)
  | [] => []
  | p :: ps => rows level p ++ rowsOf level ps

end

end Plan

/-- The indentation of a level. -/
inductive Margin (strict : Bool) : Nat → List Char → Prop
  | none : Margin strict 0 []
  | tab {n : Nat} {s : List Char} (h : Margin strict n s) : Margin strict (n + 1) ('\t' :: s)
  | spaces {n : Nat} {s : List Char} (hstrict : strict = false) (h : Margin strict n s) :
    Margin strict (n + 1) (' ' :: ' ' :: s)

/-- The source has the lines, each ended by a line feed; the last one need not be ended. -/
inductive Written (strict : Bool) : List (Nat × List Char) → List Char → Prop
  | nil : Written strict [] []
  | last {n : Nat} {margin content : List Char} (h : Margin strict n margin) :
    Written strict [(n, content)] (margin ++ content)
  | line {n : Nat} {margin content s : List Char} {rows : List (Nat × List Char)}
    (h : Margin strict n margin) (hs : Written strict rows s) :
    Written strict ((n, content) :: rows) (margin ++ (content ++ '\n' :: s))

/-! ## Programs -/

/-- The text can be a line of text: it is not read as something else, and it holds no statement. -/
structure IsTextLine (s : List Char) : Prop where
  start : ∃ c t, s = c :: t ∧ Text.isSpace c = false ∧ c ∉ ['%', '.', '#', '=', '-', ':']
  doctype : ¬ ['!', '!', '!'] <+: s
  feed : '\n' ∉ s
  carriage : '\r' ∉ s
  opening : ¬ Delimiters.standard.opening <:+: s

/-- A statement as a line, behind one of the signs. -/
def statementLine (sign : Char) (statement : List Char) : List Char := sign :: ' ' :: statement

/-- The signs that a statement line starts with. -/
def IsSign (sign : Char) : Prop := sign = '=' ∨ sign = '-'

open Delimited (Branch) in
/-- The plans are an outline of the program: a line for every text and statement, with bodies below
their branch and an `else` line behind the body that it ends. -/
inductive Outlines : List Part → List Plan → Prop
  | nil : Outlines [] []
  | text {s : List Char} {ps : List Part} {plans : List Plan} (h : Outlines ps plans) :
    Outlines (.text s :: ps) (.mk s [] :: plans)
  | action {sign : Char} {statement : List Char} {ps : List Part} {plans : List Plan}
    (hsign : IsSign sign) (h : Outlines ps plans) :
    Outlines (.action statement :: ps) (.mk (statementLine sign statement) [] :: plans)
  | branch {sign : Char} {b : Branch} {subject : List Char} {body ps : List Part}
    {inner plans : List Plan} (hsign : IsSign sign) (hbody : Outlines body inner)
    (h : Outlines ps plans) :
    Outlines (.branch b subject body none :: ps)
      (.mk (statementLine sign (b.statement subject)) inner :: plans)
  | choice {sign sign' : Char} {b : Branch} {subject : List Char} {body otherwise ps : List Part}
    {inner inner' plans : List Plan} (hsign : IsSign sign) (hsign' : IsSign sign')
    (hbody : Outlines body inner) (hother : Outlines otherwise inner') (h : Outlines ps plans) :
    Outlines (.branch b subject body (some otherwise) :: ps)
      (.mk (statementLine sign (b.statement subject)) inner ::
        .mk (statementLine sign' "else".toList) inner' :: plans)

end Outline

end Stencil
