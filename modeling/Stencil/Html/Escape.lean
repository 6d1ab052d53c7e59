import Stencil.Html.Context
import Stencil.Json.Printer
import Stencil.Value.Data
import Stencil.Value.Printer

/-!
# Escaping

How a value is written so that a browser reads it as data.

* `Escape.html` writes text for the body of a document, `Escape.script` makes JSON text harmless inside
  a script, and `Escape.style` lets only harmless text into a style.
* `Value.written` is the text of a value in a context, for an escaping or a plain template.
-/

namespace Stencil

namespace Escape

/-- One character of the body. -/
def htmlChar (c : Char) : List Char :=
  if c = '<' then "&lt;".toList
  else if c = '>' then "&gt;".toList
  else if c = '&' then "&amp;".toList
  else if c = '"' then "&quot;".toList
  else if c = '\'' then "&#x27;".toList
  else if c = '/' then "&#x2f;".toList
  else [c]

/-- Text of the body. -/
def html (s : String) : String := String.ofList (s.toList.flatMap htmlChar)

/-- One character of JSON text in a script. -/
def scriptChar (c : Char) : List Char :=
  if c = '<' then "\\u003c".toList
  else if c = '>' then "\\u003e".toList
  else if c = '&' then "\\u0026".toList
  else if c = '\'' then "\\u0027".toList
  else [c]

/-- JSON text in a script. -/
def script (s : String) : String := String.ofList (s.toList.flatMap scriptChar)

/-- The characters that are harmless in a style. -/
def isStyleSafe (c : Char) : Bool :=
  c.isAlphanum || c = ' ' || c = '#' || c = '%' || c = '-' || c = '.' || c = ',' || c = '_'

/-- What stands for text that is not harmless in a style. -/
def unsafeMark : String := "ZgotmplZ"

/-- Text in a style. -/
def style (s : String) : String := if s.toList.all isStyleSafe then s else unsafeMark

end Escape

namespace Value

/-- Whether the text of a value of this kind needs no escaping in the body. -/
def Kind.isPlainInBody : Kind → Bool
  | .undefined | .none | .bool | .number => true
  | _ => false

/-- Whether the text of a value of this kind needs no check in a style. -/
def Kind.isPlainInStyle : Kind → Bool
  | .undefined | .none | .number => true
  | _ => false

/-- The text of a value that is escaped for a context. -/
def escaped (v : Value) : HtmlContext → String
  | .body => if v.kind.isPlainInBody then v.display else Escape.html v.display
  | .script => Escape.script v.toJson.text
  | .style => if v.kind.isPlainInStyle then v.display else Escape.style v.display

/-- The text that an action writes. Safe text is written as it is. -/
def written (v : Value) (escape : AutoEscape) (context : HtmlContext) : String :=
  match escape with
  | .off => v.display
  | .html => if v.isSafe then v.display else v.escaped context

end Value

end Stencil
