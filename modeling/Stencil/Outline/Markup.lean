import Stencil.Outline.Printer

/-!
# Markup

Elements and lines of text, as an outline writes them and as HTML.

* `Markup` is an element with what is inside it, or a line of text; `Markup.AreStatic` says which can be
  written, without any statement in them.
* `Element.IsLine` says how the line of an element is written, and `Sketches ms plans` that the plans
  are an outline of the markup.
* `Markup.html` is the HTML. Classes and ids of the compact form stand in the first `class` and `id`
  attribute that has a value, in front of it, and are attributes of their own if there is none.
-/

namespace Stencil.Outline

/-- An attribute, with a value or without. -/
structure Attribute where
  name : List Char
  value : Option (List Char) := none

namespace Attribute

/-- How an attribute is written. -/
def text (a : Attribute) : List Char :=
  a.name ++
    match a.value with
    | none => []
    | some v => '=' :: '"' :: (v ++ ['"'])

/-- The attributes with a text in front of the value of the first one that has the name and a value,
or with an attribute for it behind all. -/
def place (name added separator : List Char) : List Attribute → List Attribute
  | [] => [⟨name, some added⟩]
  | a :: as =>
    match a.value with
    | some v =>
      if a.name = name then ⟨name, some (added ++ separator ++ v)⟩ :: as
      else a :: place name added separator as
    | none => a :: place name added separator as

end Attribute

/-- An element without what is inside it. -/
structure Element where
  name : List Char
  /-- The classes of the compact form. -/
  classes : List (List Char) := []
  /-- The parts of the id of the compact form. -/
  ids : List (List Char) := []
  attributes : List Attribute := []
  /-- The text behind the tag, with the space in front of it. -/
  trailing : List Char := []

/-- An element with what is inside it, or a line of text. -/
inductive Markup where
  | text (s : List Char)
  | element (e : Element) (children : List Markup)

/-! ## HTML -/

/-- The attributes with the classes and ids of the compact form in their places. -/
def placed (separator : List Char) (classes ids : List (List Char)) (attributes : List Attribute) :
    List Attribute :=
  let attributes :=
    if classes.isEmpty then attributes
    else Attribute.place "class".toList (List.intercalate [' '] classes) [' '] attributes
  if ids.isEmpty then attributes
  else Attribute.place "id".toList (List.intercalate separator ids) separator attributes

namespace Element

/-- The opening tag; `separator` stands between the parts of an id. -/
def opening (separator : List Char) (e : Element) : List Char :=
  '<' :: (e.name ++
    ((placed separator e.classes e.ids e.attributes).flatMap (fun a => ' ' :: a.text) ++ ['>']))

/-- The closing tag. -/
def closing (e : Element) : List Char := '<' :: '/' :: (e.name ++ ['>'])

/-- The text behind the tag with the space that ends a line. -/
def trailingText (e : Element) : List Char :=
  if e.trailing.isEmpty then [] else e.trailing ++ [' ']

end Element

namespace Markup

mutual

/-- The HTML of markup. A space ends every line of text; an element with nothing inside it is padded
if there is text behind its tag. -/
def html (separator : List Char) : Markup → List Char
  | .text s => s ++ [' ']
  | .element e [] =>
    if e.trailing.isEmpty then e.opening separator ++ e.closing
    else e.opening separator ++ [' '] ++ e.trailingText ++ e.closing ++ [' ']
  | .element e (m :: ms) =>
    e.opening separator ++ e.trailingText ++ htmlOf separator (m :: ms) ++ e.closing

/-- The HTML of some markup. -/
def htmlOf (separator : List Char) : List Markup → List Char
  | [] => []
  | m :: ms => html separator m ++ htmlOf separator ms

end

end Markup

/-! ## Outlines -/

/-- The compact form of classes and ids, which may stand in any order among each other. -/
inductive Compact : List (List Char) → List (List Char) → List Char → Prop
  | nil : Compact [] [] []
  | cls {c : List Char} {cs is : List (List Char)} {s : List Char} (h : Compact cs is s) :
    Compact (c :: cs) is ('.' :: (c ++ s))
  | id {i : List Char} {cs is : List (List Char)} {s : List Char} (h : Compact cs is s) :
    Compact cs (i :: is) ('#' :: (i ++ s))

/-- Attributes in parentheses, which may be left out if there are none. -/
inductive Bracketed : List Attribute → List Char → Prop
  | omitted : Bracketed [] []
  | some (as : List Attribute) :
    Bracketed as ('(' :: (List.intercalate [' '] (as.map Attribute.text) ++ [')']))

/-- The content is the line of an element. -/
def Element.IsLine (e : Element) (content : List Char) : Prop :=
  ∃ compact brackets, Compact e.classes e.ids compact ∧ Bracketed e.attributes brackets ∧
    content = '%' :: (e.name ++ (compact ++ (brackets ++ e.trailing)))

/-- The plans are an outline of the markup. No line goes on with the next one. -/
inductive Sketches : List Markup → List Plan → Prop
  | nil : Sketches [] []
  | text {s : List Char} {ms : List Markup} {plans : List Plan} (h : Sketches ms plans) :
    Sketches (.text s :: ms) (.mk s [] :: plans)
  | element {e : Element} {content : List Char} {children ms : List Markup} {inner plans : List Plan}
    (hline : e.IsLine content) (hlast : content.getLast? ≠ some '\\')
    (hchildren : Sketches children inner) (h : Sketches ms plans) :
    Sketches (.element e children :: ms) (.mk content inner :: plans)

/-! ## Markup without statements -/

/-- The text is part of one line and holds no statement. -/
structure IsPiece (s : List Char) : Prop where
  feed : '\n' ∉ s
  carriage : '\r' ∉ s
  opening : ¬ Delimiters.standard.opening <:+: s

/-- The text can be a name, a class or a part of an id. -/
structure IsLabel (s : List Char) : Prop where
  piece : IsPiece s
  ne_nil : s ≠ []
  chars : ∀ c ∈ s, Text.isSpace c = false ∧ c ∉ ['.', '#', '(', '=']
  last : s.getLast? ≠ some '-'

/-- The attribute can be written. -/
structure Attribute.IsStatic (a : Attribute) : Prop where
  name : IsPiece a.name
  name_ne_nil : a.name ≠ []
  name_chars : ∀ c ∈ a.name, c ≠ ' ' ∧ c ≠ ')' ∧ c ≠ '='
  value : ∀ v ∈ a.value, IsPiece v ∧ '"' ∉ v

/-- The element can be written, with no statement in it. -/
structure Element.IsStatic (e : Element) : Prop where
  name : IsLabel e.name
  classes : ∀ c ∈ e.classes, IsLabel c
  ids : ∀ i ∈ e.ids, IsLabel i
  attributes : ∀ a ∈ e.attributes, a.IsStatic
  trailing : IsPiece e.trailing
  spaced : e.trailing = [] ∨ ∃ s, e.trailing = ' ' :: s
  statement : ∀ s, Text.trimStart e.trailing ≠ '=' :: s

namespace Markup

mutual

/-- The markup can be written, with no statement in it. -/
def IsStatic : Markup → Prop
  | .text s => IsTextLine s
  | .element e children => e.IsStatic ∧ AreStatic children

/-- All of the markup can be written, with no statement in it. -/
def AreStatic : List Markup → Prop
  | [] => True
  | m :: ms => IsStatic m ∧ AreStatic ms

end

end Markup

end Stencil.Outline
