import Stencil.Settings

/-!
# The segments of a delimited source

A delimited source is text with actions between delimiters. A dash next to a delimiter, with white
space on its inner side, removes the white space on the outer side; an action that is a comment
stands for nothing.

* `Segment` is a piece of text or an action with its line.
* `Segment.scan` splits a source, `Segment.ofSource` from its start.
-/

namespace Stencil.Delimited

/-- A part of a delimited source. -/
inductive Segment where
  | text (s : List Char)
  | action (statement : List Char) (line : Nat)

/-- Whether a text starts with a dash and white space. -/
def hasTrimMark : List Char → Bool
  | '-' :: c :: _ => Text.isSpace c
  | _ => false

/-- The inside of an action without its trim marks, and whether it has one at the start and one at the
end. -/
def trimMarks (inner : List Char) : List Char × Bool × Bool :=
  let first := hasTrimMark inner
  let inner := if first then inner.drop 1 else inner
  let last := hasTrimMark inner.reverse
  (if last then inner.dropLast else inner, first, last)

/-- Whether a statement starts as a comment does. -/
def opensComment (s : List Char) : Bool := Text.startsWith ['/', '*'] s

/-- Whether a statement ends as a comment does. -/
def closesComment (s : List Char) : Bool := Text.endsWith ['*', '/'] s

namespace Segment

/-- A text segment, unless there is no text. -/
def ofText (s : List Char) : List Segment := if s.isEmpty then [] else [.text s]

/-- Splits a source from `line` on; `trimmed` says that the action before it ends in a trim mark. -/
def scan (d : Delimiters) (trimmed : Bool) (line : Nat) (s : List Char) :
    Except Fault (List Segment) :=
  let start := fun t => if trimmed then Text.trimStart t else t
  match h : Text.cut? d.opening s with
  | none => return ofText (start s)
  | some (before, t) =>
    let line := line + Text.lineFeeds before
    match h' : Text.cut? d.closing t with
    | none => throw { cause := .unclosedAction, line }
    | some (inner, rest) => do
      have := Text.cut?_length_lt d.opening_ne_nil h
      have := Text.cut?_length_lt d.closing_ne_nil h'
      let (marked, first, last) := trimMarks inner
      let text := if first then Text.trimEnd (start before) else start before
      let statement := Text.trim marked
      let next := line + Text.lineFeeds (d.opening ++ inner ++ d.closing)
      if opensComment statement then
        if closesComment statement then
          let segments ← scan d last next rest
          return ofText text ++ segments
        else throw { cause := .unclosedComment, line }
      else
        let segments ← scan d last next rest
        return ofText text ++ .action statement line :: segments
  termination_by s.length

/-- The segments of a source. -/
def ofSource (d : Delimiters) (source : List Char) : Except Fault (List Segment) :=
  scan d false 1 source

end Segment

end Stencil.Delimited
