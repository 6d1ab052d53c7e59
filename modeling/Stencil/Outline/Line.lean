import Stencil.Fault

/-!
# The lines of an outline

An outline is a source whose structure is in its indentation. This module splits one into logical
lines: blank lines are dropped, the indentation is counted in levels, and a statement or tag line
that ends in a backslash is joined with the next physical line.

* `Line` is a logical line; `isTag`, `isActionable` and `statement` say what it is.
* `indentation` counts levels: tabs, and pairs of spaces unless indentation is strict.
* `Line.classify` splits a source; a line may be one level deeper than the line before it, not more.
-/

namespace Stencil.Outline

/-- A logical line. -/
structure Line where
  /-- The indentation in levels. -/
  indent : Nat
  /-- The text after the indentation, with continuations joined. -/
  content : List Char
  /-- The number of the physical line that it starts on, from one. -/
  number : Nat

namespace Line

/-- Whether the content starts with one of some characters. -/
def startsIn (l : Line) (cs : List Char) : Bool :=
  match l.content with
  | c :: _ => cs.contains c
  | [] => false

/-- Whether the line is a tag. -/
def isTag (l : Line) : Bool := l.startsIn ['%', '.', '#']

/-- Whether the line is a statement. -/
def isActionable (l : Line) : Bool := l.startsIn ['=', '-']

/-- The statement of a line: the trimmed text after the sign. -/
def statement (l : Line) : List Char :=
  if l.isActionable then Text.trim (l.content.drop 1) else l.content

/-- Whether the line goes on with the next physical line. -/
def isOpen (l : Line) : Bool :=
  (l.isActionable && l.statement.getLast? = some '\\') ||
    (l.isTag && l.content.getLast? = some '\\')

/-- A text without the backslash that it ends in. -/
def dropBackslash (s : List Char) : List Char :=
  if s.getLast? = some '\\' then s.dropLast else s

/-- The line joined with the next physical line. -/
def join (l : Line) (next : List Char) : Line :=
  { l with content := Text.trim (dropBackslash (Text.trimEnd l.content)) ++ ' ' :: Text.trim next }

/-- The levels at the start of a physical line, and its text after them. -/
def indentation (strict : Bool) : List Char → Nat × List Char
  | '\t' :: s => let (n, r) := indentation strict s; (n + 1, r)
  | ' ' :: ' ' :: s =>
    if strict then (0, ' ' :: ' ' :: s)
    else let (n, r) := indentation strict s; (n + 1, r)
  | s => (0, s)

/-- A fault at a line. -/
def fault (number : Nat) (c : Cause) : Fault := Fault.atLine { cause := c } number

/-- What a physical line makes of the line before it: that line goes on if it is open, and otherwise
a new line starts, unless the physical line is blank. -/
def next? (strict : Bool) (level : Nat) (current : Option Line) (raw : List Char) (number : Nat) :
    Except Fault (Option Line) :=
  match current with
  | some l => return some (l.join raw)
  | none =>
    if Text.isBlank raw then return none
    else
      let (indent, content) := indentation strict raw
      if level + 1 < indent then throw (fault number (.overindented number))
      else return some { indent, content, number }

/-- The logical lines of numbered physical lines, after a line at `level`; `current` is a line that
goes on. -/
def ofPhysical (strict : Bool) (level : Nat) (current : Option Line) :
    List (List Char × Nat) → Except Fault (List Line)
  | [] =>
    match current with
    | some l => throw (fault l.number (.notCompleted l.number))
    | none => return []
  | (raw, number) :: physical => do
    match ← next? strict level current raw number with
    | none => ofPhysical strict level none physical
    | some l =>
      if l.isOpen then ofPhysical strict level (some l) physical
      else
        let ls ← ofPhysical strict l.indent none physical
        return l :: ls
  termination_by structural physical => physical

/-- The logical lines of a source. -/
def classify (strict : Bool) (source : List Char) : Except Fault (List Line) :=
  ofPhysical strict 0 none ((Text.lines source).zipIdx 1)

end Line

end Stencil.Outline
