import Stencil.Settings

/-!
# Tag lines

A tag line is a compact tag, `%name.class#id(attributes)`, with text after it.

* `Tag` is the tag; a line without a name is a `div`.
* `Tag.parse` takes a line apart; `Tag.opening` and `Tag.closing` write the tag.

The classes and ids of the compact form come before those of a `class` or `id` attribute, and make up
an attribute of their own if there is none. The parts of an id are joined by a separator.
-/

namespace Stencil.Outline

/-- A tag. -/
structure Tag where
  name : List Char := ['d', 'i', 'v']
  /-- The classes of the compact form. -/
  classes : List (List Char) := []
  /-- The parts of the id of the compact form. -/
  ids : List (List Char) := []
  /-- The attributes as they are written. -/
  attributes : List (List Char) := []
  /-- Whether an attribute value holds an interpolation. -/
  executable : Bool := false

namespace Tag

/-! ## Reading a tag -/

/-- The parts of the compact form. -/
inductive Segment where
  | name
  | cls
  | id

/-- Adds a part of the compact form; an empty one counts for nothing. -/
def add (t : Tag) (segment : Segment) (value : List Char) : Tag :=
  if value.isEmpty then t
  else match segment with
    | .name => { t with name := value }
    | .cls => { t with classes := t.classes ++ [value] }
    | .id => { t with ids := t.ids ++ [value] }

/-- Adds an attribute; an empty one counts for nothing. -/
def addAttribute (t : Tag) (value : List Char) : Tag :=
  if value.isEmpty then t else { t with attributes := t.attributes ++ [value] }

/-- The length of the interpolation that a text starts with. -/
def interpolationLength? (d : Delimiters) (s : List Char) : Option Nat := do
  let t ← Text.after? d.opening s
  let (_, rest) ← Text.cut? d.closing t
  return s.length - rest.length

mutual

/-- Reads the attributes of a tag up to the closing parenthesis; `value` is the attribute so far,
reversed, and `content` the whole line. -/
def readAttributes (d : Delimiters) (content : String) (t : Tag) (value : List Char) :
    List Char → Outcome (Tag × List Char)
  | [] => throw (.unclosedAttributes content)
  | '=' :: '"' :: s => readValue d content t ('"' :: '=' :: value) 0 s
  | c :: s =>
    if c = ')' then return (t.addAttribute value.reverse, s)
    else if c = ' ' then readAttributes d content (t.addAttribute value.reverse) [] s
    else if c = '=' then throw (.unquotedValue content)
    else readAttributes d content t (c :: value) s

/-- Reads an attribute value up to the closing quote. An interpolation is taken over as it is, so
that quotes in it do not end the value: `taken` characters of it are still to come. -/
def readValue (d : Delimiters) (content : String) (t : Tag) (value : List Char) (taken : Nat) :
    List Char → Outcome (Tag × List Char)
  | [] => throw (.unclosedValue content)
  | c :: s =>
    match taken with
    | n + 1 => readValue d content t (c :: value) n s
    | 0 =>
      match interpolationLength? d (c :: s) with
      | some n => readValue d content { t with executable := true } (c :: value) (n - 1) s
      | none =>
        if c = '"' then readAttributes d content (t.addAttribute (c :: value).reverse) [] s
        else readValue d content t (c :: value) 0 s

end

/-- Whether a dash ends the compact form, given what follows it; any other dash is part of a name. -/
def dashEnds : List Char → Bool
  | [] => true
  | c :: _ => c = '=' || Text.isSpace c

/-- Reads the compact form; `value` is the part so far, reversed. -/
def readSegments (d : Delimiters) (content : String) (t : Tag) (segment : Segment)
    (value : List Char) : List Char → Outcome (Tag × List Char)
  | [] => return (t.add segment value.reverse, [])
  | c :: s =>
    let done := t.add segment value.reverse
    if c = '.' then readSegments d content done .cls [] s
    else if c = '#' then readSegments d content done .id [] s
    else if c = '(' then readAttributes d content done [] s
    else if c = '=' || Text.isSpace c || (c = '-' && dashEnds s) then return (done, c :: s)
    else readSegments d content t segment (c :: value) s

/-- Takes a tag line apart into the tag and the text after it. -/
def parse (d : Delimiters) (content : List Char) : Outcome (Tag × List Char) :=
  let line := String.ofList content
  match content with
  | '%' :: s => readSegments d line {} .name [] s
  | '.' :: s => readSegments d line {} .cls [] s
  | '#' :: s => readSegments d line {} .id [] s
  | _ => throw (.notATag line)

/-! ## Writing a tag -/

/-- The parts of an attribute value joined by a separator. -/
def joined (separator : List Char) (parts : List (List Char)) : List Char :=
  List.intercalate separator parts

/-- How an attribute `class` begins. -/
def classStart : List Char := "class=\"".toList

/-- How an attribute `id` begins. -/
def idStart : List Char := "id=\"".toList

/-- The attributes of an opening tag, each after a space, with the classes and ids that are still to
be placed. -/
def attributesText (separator : List Char) (classes ids : List (List Char)) :
    List (List Char) → List Char
  | [] =>
    (if classes.isEmpty then [] else ' ' :: classStart ++ joined [' '] classes ++ ['"']) ++
      (if ids.isEmpty then [] else ' ' :: idStart ++ joined separator ids ++ ['"'])
  | a :: as =>
    match Text.after? classStart a, Text.after? idStart a, classes, ids with
    | some value, _, _ :: _, _ =>
      ' ' :: classStart ++ joined [' '] classes ++ ' ' :: value ++
        attributesText separator [] ids as
    | _, some value, _, _ :: _ =>
      ' ' :: idStart ++ joined separator ids ++ separator ++ value ++
        attributesText separator classes [] as
    | _, _, _, _ => ' ' :: a ++ attributesText separator classes ids as

/-- The opening tag; `separator` stands between the parts of an id. -/
def opening (t : Tag) (separator : String) : List Char :=
  '<' :: t.name ++ attributesText separator.toList t.classes t.ids t.attributes ++ ['>']

/-- The closing tag. -/
def closing (t : Tag) : List Char := '<' :: '/' :: t.name ++ ['>']

end Tag

end Stencil.Outline
