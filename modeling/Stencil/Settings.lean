import Stencil.Fault

/-!
# Settings

What the front ends are configured with.

* `Delimiters` are the marks around an interpolation; the type holds usable pairs only, and
  `Delimiters.make` refuses the others.
* `Filter` wraps the body of a `:trigger` block of an outline.
* `Settings` holds these with the strictness of indentation and interpolation, the separator of ids
  and the doctypes; `Settings.standard` is what an environment starts with.
-/

namespace Stencil

/-! ## Delimiters -/

/-- The marks around an interpolation. -/
structure Delimiters where
  left : String
  right : String
  left_ne : left ≠ ""
  right_ne : right ≠ ""
  left_ne_right : left ≠ right

namespace Delimiters

/-- Double braces. -/
def standard : Delimiters :=
  ⟨"\x7b\x7b", "\x7d\x7d", by decide, by decide, by decide⟩

/-- A pair of delimiters that are not empty and differ. -/
def make (left right : String) : Outcome Delimiters :=
  if hl : left = "" then throw .emptyDelimiter
  else if hr : right = "" then throw .emptyDelimiter
  else if h : left = right then throw (.equalDelimiters left)
  else return ⟨left, right, hl, hr, h⟩

/-- The characters of the left mark. -/
def opening (d : Delimiters) : List Char := d.left.toList

/-- The characters of the right mark. -/
def closing (d : Delimiters) : List Char := d.right.toList

theorem opening_ne_nil (d : Delimiters) : d.opening ≠ [] := fun h =>
  d.left_ne (String.toList_inj.1 h)

theorem closing_ne_nil (d : Delimiters) : d.closing ≠ [] := fun h =>
  d.right_ne (String.toList_inj.1 h)

end Delimiters

/-! ## Filters -/

/-- A handler of `:trigger` blocks. -/
structure Filter where
  trigger : String
  opening : String
  closing : String
  transform : String → String := id

namespace Filter

/-- A handler whose trigger may be given with the colon that it is written with. -/
def make (trigger opening closing : String) (transform : String → String) : Filter :=
  { trigger := String.ofList (trigger.toList.dropWhile (· = ':')), opening, closing, transform }

/-- The text that a body is replaced with. -/
def apply (f : Filter) (body : String) : String := f.opening ++ f.transform body ++ f.closing

end Filter

/-! ## Settings -/

/-- The configuration of the front ends. -/
structure Settings where
  /-- Whether tabs alone count as indentation. -/
  strictIndentation : Bool := false
  /-- Whether an interpolation that cannot be read is a fault, rather than text. -/
  strictInterpolation : Bool := false
  delimiters : Delimiters := .standard
  /-- What stands between the parts of an id. -/
  idSeparator : String := "_"
  filters : List Filter
  doctypes : Table String

namespace Settings

/-- The filters known from the start. -/
def standardFilters : List Filter :=
  [.make "javascript" "<script type=\"text/javascript\">" "</script>" id,
    .make "css" "<style>" "</style>" id]

/-- The doctypes known from the start. -/
def standardDoctypes : Table String :=
  Table.ofList [
    ("", "<!DOCTYPE html>"),
    ("5", "<!DOCTYPE html>"),
    ("Transitional", "<!DOCTYPE html PUBLIC \"-//W3C//DTD XHTML 1.0 Transitional//EN\" " ++
      "\"http://www.w3.org/TR/xhtml1/DTD/xhtml1-transitional.dtd\">"),
    ("Strict", "<!DOCTYPE html PUBLIC \"-//W3C//DTD XHTML 1.0 Strict//EN\" " ++
      "\"http://www.w3.org/TR/xhtml1/DTD/xhtml1-strict.dtd\">"),
    ("Frameset", "<!DOCTYPE html PUBLIC \"-//W3C//DTD XHTML 1.0 Frameset//EN\" " ++
      "\"http://www.w3.org/TR/xhtml1/DTD/xhtml1-frameset.dtd\">"),
    ("1.1", "<!DOCTYPE html PUBLIC \"-//W3C//DTD XHTML 1.1//EN\" " ++
      "\"http://www.w3.org/TR/xhtml11/DTD/xhtml11.dtd\">"),
    ("Basic", "<!DOCTYPE html PUBLIC \"-//W3C//DTD XHTML Basic 1.1//EN\" " ++
      "\"http://www.w3.org/TR/xhtml-basic/xhtml-basic11.dtd\">"),
    ("Mobile", "<!DOCTYPE html PUBLIC \"-//WAPFORUM//DTD XHTML Mobile 1.2//EN\" " ++
      "\"http://www.openmobilealliance.org/tech/DTD/xhtml-mobile12.dtd\">"),
    ("RDFa", "<!DOCTYPE html PUBLIC \"-//W3C//DTD XHTML+RDFa 1.0//EN\" " ++
      "\"http://www.w3.org/MarkUp/DTD/xhtml-rdfa-1.dtd\">")]

/-- The settings of a new environment. -/
def standard : Settings := { filters := standardFilters, doctypes := standardDoctypes }

/-- Adds a filter in place of one with the same trigger. -/
def addFilter (s : Settings) (f : Filter) : Settings :=
  { s with filters := s.filters.filter (·.trigger ≠ f.trigger) ++ [f] }

/-- The filter of a trigger. -/
def filter? (s : Settings) (trigger : String) : Option Filter :=
  s.filters.find? (·.trigger = trigger)

/-- Sets the doctype of a keyword. -/
def addDoctype (s : Settings) (key text : String) : Settings :=
  { s with doctypes := Table.insert key text s.doctypes }

/-- The doctype of a keyword. -/
def doctype? (s : Settings) (key : String) : Option String := Table.get? key s.doctypes

end Settings

end Stencil
