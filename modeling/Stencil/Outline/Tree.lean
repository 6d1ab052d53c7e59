import Stencil.Outline.Nesting
import Stencil.Settings

/-!
# The tree of an outline

What the nested lines of an outline mean: tags with their contents between an opening and a closing
node, statements, branches with their `else` parts, filters, doctypes and text.

* `Tree` is a node; its `Place` is the line that it comes from.
* `Keyword.parse?` recognises the statements that have a body.
* `Tree.ofNests` gives the nodes of nested lines, `analyze` those of a list of lines.

An `else` line belongs to the branch whose body ends right before it, if it has the same
indentation; in any other place it is a fault.
-/

namespace Stencil.Outline

/-- The place of a line: its number and its level. -/
structure Place where
  line : Nat
  level : Nat

/-- A node of an outline. -/
inductive Tree where
  /-- Text without interpolations: a doctype. -/
  | raw (place : Place) (text : String)
  | text (place : Place) (text : List Char)
  | statement (place : Place) (statement : List Char)
  /-- A tag without contents. -/
  | leaf (place : Place) (tag : List Char)
  /-- The start of a tag with contents, which follow as nodes of the same list. -/
  | opening (place : Place) (tag : List Char)
  /-- The end of a tag with contents. -/
  | closing (place : Place) (tag : List Char)
  /-- `if`, or `unless` if negated. -/
  | cond (place : Place) (negated : Bool) (statement : List Char) (body otherwise : List Tree)
  | range (place : Place) (statement : List Char) (body otherwise : List Tree)
  /-- `with` -/
  | scope (place : Place) (statement : List Char) (body : List Tree)
  /-- A `:trigger` block; the lines of its body keep their indentation to each other. -/
  | filter (place : Place) (handler : Filter) (body : List Char)

/-! ## Statements with a body -/

/-- The words that begin a statement with a body. -/
inductive Keyword where
  | cond
  | condNot
  | range
  | scope
  deriving DecidableEq

namespace Keyword

/-- How a keyword is written, with the space after it. -/
def spelling : Keyword → List Char
  | .cond => "if ".toList
  | .condNot => "unless ".toList
  | .range => "range ".toList
  | .scope => "with ".toList

/-- The keyword that a statement begins with, and the trimmed text after it. -/
def parse? (s : List Char) : Option (Keyword × List Char) :=
  [cond, condNot, range, scope].findSome? fun k =>
    (Text.after? k.spelling s).map fun rest => (k, Text.trim rest)

/-- Whether the statement can have an `else` part, and can be one. -/
def takesElse (k : Keyword) : Bool := k ≠ .scope

/-- The statement that an `else` clause goes on with. -/
def chained? (clause : List Char) : Option (Keyword × List Char) :=
  (parse? (Text.trim clause)).filter fun s => s.1.takesElse

/-- The node of a statement. -/
def tree (k : Keyword) (place : Place) (statement : List Char) (body otherwise : List Tree) : Tree :=
  match k with
  | .cond => .cond place false statement body otherwise
  | .condNot => .cond place true statement body otherwise
  | .range => .range place statement body otherwise
  | .scope => .scope place statement body

end Keyword

/-- What follows the word `else` in a statement that is an `else` clause. -/
def elseClause? (s : List Char) : Option (List Char) :=
  match Text.after? "else".toList s with
  | some [] => some []
  | some (' ' :: rest) => some (' ' :: rest)
  | _ => none

namespace Line

/-- The place of a line. -/
def place (l : Line) : Place := ⟨l.number, l.indent⟩

/-- Whether the line is an `else` line. -/
def isElse (l : Line) : Bool := l.isActionable && (Outline.elseClause? l.statement).isSome

/-- The clause of an `else` line at `level`. -/
def elseClause? (l : Line) (level : Nat) : Option (List Char) :=
  if l.indent = level && l.isActionable then Outline.elseClause? l.statement else none

/-- The keyword of a statement line and the text after it. -/
def keyword? (l : Line) : Option (Keyword × List Char) :=
  if l.isActionable then Keyword.parse? l.statement else none

end Line

/-! ## The nodes of nested lines -/

/-- The text of a filter body below a line at `level`. -/
def filterBody (level : Nat) (ls : List Line) : List Char :=
  (List.intercalate ['\n'] (ls.map fun l =>
    (List.replicate (l.indent - level - 1) [' ', ' ']).flatten ++ l.content))

/-- The node of a line that stands for itself. -/
def lineTree (s : Settings) (l : Line) (below : List Line) : Except Fault Tree :=
  if l.isActionable then return .statement l.place l.statement
  else
    match Text.after? [':'] l.content, Text.after? ['!', '!', '!'] l.content with
    | some trigger, _ =>
      match s.filter? (String.ofList (Text.trim trigger)) with
      | some f => return .filter l.place f (filterBody l.indent below)
      | none => throw (Line.fault l.number (.unknownFilter (String.ofList l.content)))
    | none, some key =>
      match s.doctype? (String.ofList (Text.trim key)) with
      | some text => return .raw l.place text
      | none => throw (Line.fault l.number (.unknownDoctype (String.ofList l.content)))
    | none, none => return .text l.place l.content

/-- Whether the lines below a line are part of its own node. -/
def Tree.takesLines : Tree → Bool
  | .filter .. => true
  | _ => false

mutual

/-- The nodes of what is nested below a line. -/
def Tree.contents (s : Settings) : Nest → Except Fault (List Tree)
  | .mk _ nested => ofNests s nested

/-- The nodes of some nested lines. -/
def Tree.ofNests (s : Settings) : List Nest → Except Fault (List Tree)
  | [] => return []
  | n :: ns => do
    let l := n.line
    if l.isTag then
      let inner ← contents s n
      let rest ← ofNests s ns
      if n.nested.isEmpty then return .leaf l.place l.content :: rest
      else return .opening l.place l.content :: inner ++ .closing l.place l.content :: rest
    else if l.isElse then throw (Line.fault l.number .strayElse)
    else
      match l.keyword? with
      | some (k, subject) =>
        let body ← contents s n
        match ← otherwise? s k l.indent ns with
        | some (otherwise, rest) => return k.tree l.place subject body otherwise :: rest
        | none =>
          let rest ← ofNests s ns
          return k.tree l.place subject body [] :: rest
      | none =>
        let t ← lineTree s l (Nest.linesOf n.nested)
        let inner ← if t.takesLines then pure [] else contents s n
        let rest ← ofNests s ns
        return t :: inner ++ rest
  termination_by structural ns => ns

/-- The `else` part of a branch at `level` that the next lines begin with, and the nodes after it. -/
def Tree.otherwise? (s : Settings) (k : Keyword) (level : Nat) :
    List Nest → Except Fault (Option (List Tree × List Tree))
  | [] => return none
  | n :: ns =>
    let l := n.line
    match if k.takesElse then l.elseClause? level else none with
    | none => return none
    | some clause => do
      if Text.isBlank clause then
        let body ← contents s n
        let rest ← ofNests s ns
        return some (body, rest)
      else
        match Keyword.chained? clause with
        | none => throw (Line.fault l.number (.badElse (String.ofList l.statement)))
        | some (k, subject) =>
          let body ← contents s n
          match ← otherwise? s k l.indent ns with
          | some (otherwise, rest) => return some ([k.tree l.place subject body otherwise], rest)
          | none =>
            let rest ← ofNests s ns
            return some ([k.tree l.place subject body []], rest)
  termination_by structural ns => ns

end

/-- The nodes of a list of lines. -/
def analyze (s : Settings) (ls : List Line) : Except Fault (List Tree) :=
  Tree.ofNests s (Nest.ofLines ls)

end Stencil.Outline
