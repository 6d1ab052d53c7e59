import Stencil.Text.Search
import Stencil.Text.Space

/-!
# HTML contexts

What a piece of output is read as by a browser depends on the element around it: the body of the
document, an inline script or an inline style.

* `HtmlContext` is that distinction; `HtmlContext.feed` follows it over literal text.
* `BlockKind` is what prepared content was made for, and `BlockKind.accepts` says where it may be
  written.
* `AutoEscape` switches the escaping of a template on and off.
-/

namespace Stencil

/-- The context that a piece of output is written into. -/
inductive HtmlContext where
  | body
  | script
  | style
  deriving DecidableEq

/-- What prepared content was made for. -/
inductive BlockKind where
  /-- Content of the application, for any context. -/
  | user
  | html
  | css
  | js
  deriving DecidableEq

/-- Whether the values that a template writes are escaped. -/
inductive AutoEscape where
  | off
  | html
  deriving DecidableEq

namespace AutoEscape

/-- The name of a mode in the log. -/
def name : AutoEscape → String
  | .off => "None"
  | .html => "Html"

end AutoEscape

namespace HtmlContext

/-- The name of a context in messages. -/
def name : HtmlContext → String
  | .body => "html"
  | .script => "script"
  | .style => "style"

end HtmlContext

namespace BlockKind

/-- The name of a kind in messages. -/
def name : BlockKind → String
  | .user => "user"
  | .html => "html"
  | .css => "css"
  | .js => "js"

/-- Whether content of this kind may be written into a context. -/
def accepts : BlockKind → HtmlContext → Bool
  | .user, _ => true
  | .html, .body => true
  | .css, .style => true
  | .js, .script => true
  | _, _ => false

/-- The kind of content that is captured in a context. -/
def ofContext : HtmlContext → BlockKind
  | .body => .html
  | .script => .js
  | .style => .css

theorem ofContext_accepts (c : HtmlContext) : (ofContext c).accepts c = true := by
  cases c <;> rfl

end BlockKind

/-! ## Following the context over text -/

/-- The tags that open and close the elements with a context of their own. -/
inductive Marker where
  | scriptOpen
  | scriptClose
  | styleOpen
  | styleClose
  deriving DecidableEq

namespace Marker

/-- How a marker is written, in lower case. -/
def spelling : Marker → List Char
  | .scriptOpen => ['<', 's', 'c', 'r', 'i', 'p', 't']
  | .scriptClose => ['<', '/', 's', 'c', 'r', 'i', 'p', 't']
  | .styleOpen => ['<', 's', 't', 'y', 'l', 'e']
  | .styleClose => ['<', '/', 's', 't', 'y', 'l', 'e']

/-- What follows a marker that the text starts with, in capital or small letters. -/
def after? (needle : List Char) (s : List Char) : Option (List Char) :=
  if startsWith needle s then some (s.drop needle.length) else none
where
  /-- Whether a text starts with the needle up to the case of ASCII letters. -/
  startsWith : List Char → List Char → Bool
    | [], _ => true
    | _ :: _, [] => false
    | n :: ns, c :: cs => n = c.toLower && startsWith ns cs

/-- Whether an element name can end before the rest of a text: `<scripts` opens no script. -/
def endsName : List Char → Bool
  | [] => true
  | c :: _ => c = '>' || c = '/' || Text.isSpace c

/-- Whether a text starts with a complete marker. -/
def isAt (m : Marker) (s : List Char) : Bool :=
  match after? m.spelling s with
  | some rest => endsName rest
  | none => false

/-- The complete marker that a text starts with. -/
def at? (s : List Char) : Option Marker :=
  [scriptOpen, scriptClose, styleOpen, styleClose].find? (·.isAt s)

end Marker

namespace HtmlContext

/-- The context after a marker: an element is opened in the body only and closed by its own tag. -/
def afterMarker : HtmlContext → Marker → HtmlContext
  | .body, .scriptOpen => .script
  | .body, .styleOpen => .style
  | .script, .scriptClose => .body
  | .style, .styleClose => .body
  | c, _ => c

/-- The context after the first character of a text, given the whole text. -/
def step (c : HtmlContext) (s : List Char) : HtmlContext :=
  match Marker.at? s with
  | some m => c.afterMarker m
  | none => c

/-- The context after a piece of literal text. -/
def feed (c : HtmlContext) : List Char → HtmlContext
  | [] => c
  | a :: s => feed (c.step (a :: s)) s

end HtmlContext

end Stencil
