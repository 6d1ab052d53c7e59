import Stencil.Delimited.Segment
import Stencil.Template.Builder

/-!
# Templates from delimited sources

The segments of a delimited source are compiled in one pass. What is open at a segment, branches and
definitions of further templates, is kept in a list of frames.

* `Keyword` is what the first word of an action makes of it.
* `Frame` is an open branch or definition with the nodes around it.
* `compile` reads on in the open frames, and `parse` compiles a source to its templates: one of the
  given name, and one for every definition in it.
-/

namespace Stencil.Delimited

/-! ## Keywords -/

/-- The branches. -/
inductive Branch where
  | cond
  | range
  | scope
  deriving DecidableEq

/-- What an action is by its first word, with the text after that word. -/
inductive Keyword where
  | finish
  | otherwise (rest : List Char)
  | branch (b : Branch) (rest : List Char)
  | define (rest : List Char)
  | action

/-- The first word of a text and what follows the white space after it, if there is any. -/
def firstWord (s : List Char) : List Char × List Char :=
  let p : Char → Bool := fun c => !Text.isSpace c
  (s.takeWhile p, (s.dropWhile p).drop 1)

/-- What an action is. -/
def Keyword.of (statement : List Char) : Keyword :=
  let (word, rest) := firstWord statement
  let rest := Text.trim rest
  if word = "end".toList && rest.isEmpty then .finish
  else if word = "else".toList then .otherwise rest
  else if word = "if".toList then .branch .cond rest
  else if word = "range".toList then .branch .range rest
  else if word = "with".toList then .branch .scope rest
  else if word = "define".toList then .define rest
  else .action

/-- The branch that continues an `else`, with its subject. -/
def chained? (clause : List Char) : Option (Branch × List Char) :=
  let (word, rest) := firstWord clause
  if word = "if".toList then some (.cond, Text.trim rest)
  else if word = "with".toList then some (.scope, Text.trim rest)
  else none

/-- The node of a branch. -/
def Branch.node (b : Branch) (line : Nat) (p : Pipeline) (body otherwise : List Node) : Node :=
  match b with
  | .cond => .cond line false p body otherwise
  | .range => .range line p body otherwise
  | .scope => .scope line p body otherwise

/-! ## Open frames -/

/-- What is open. -/
inductive Construct where
  /-- A branch; its body once an `else` has ended it. A chained branch is the whole `else` part of
  the one around it and ends with it. -/
  | branch (b : Branch) (p : Pipeline) (chained : Bool) (body : Option (List Node))
  /-- The definition of a template, which has a context of its own. -/
  | define (name : String) (context : HtmlContext)

/-- An open construct, with the nodes written before it, the latest first. -/
structure Frame where
  construct : Construct
  line : Nat
  outer : List Node

/-- A definition that has ended. -/
structure Definition where
  name : String
  nodes : List Node

/-- Stops with a cause at a line. -/
def fail {α : Type} (line : Nat) (c : Cause) : Build α := throw { cause := c, line }

/-- Opens a construct: what is written from now on belongs to it. -/
def openFrame (construct : Construct) (line : Nat) : Build Frame := do
  let outer := (← get).emitted
  modify fun b => { b with emitted := [] }
  return { construct, line, outer }

/-- Ends the innermost construct, and with a chained branch the one around it as well. Gives the
frames that stay open and the definition that ended. -/
def closeFrame : List Frame → Build (List Frame × Option Definition)
  | [] => throw { cause := .strayEnd }
  | f :: fs => do
    let inner := (← get).nodes
    match f.construct with
    | .branch b p chained body =>
      let node := match body with
        | none => b.node f.line p inner []
        | some body => b.node f.line p body inner
      modify fun s => { s with emitted := node :: f.outer }
      if chained then closeFrame fs else return (fs, none)
    | .define name context =>
      modify fun s => { s with emitted := f.outer, context }
      return (fs, some { name, nodes := inner })

/-- Goes on with the `else` part of the innermost construct; `rest` is what follows the word. -/
def elseFrame (rest : List Char) (line : Nat) : List Frame → Build (List Frame)
  | [] => fail line .elseOutside
  | f :: fs =>
    match f.construct with
    | .define .. => fail line .elseInDefine
    | .branch _ _ _ (some _) => fail line .elseAfterElse
    | .branch b p chained none => do
      let body := (← get).nodes
      let f := { f with construct := .branch b p chained (some body) }
      if rest.isEmpty then
        modify fun s => { s with emitted := [] }
        return f :: fs
      else
        match chained? rest with
        | none => fail line (.badElse (String.ofList rest))
        | some (b, subject) =>
          let p ← Build.pipeline subject line
          modify fun s => { s with emitted := [] }
          return (← openFrame (.branch b p true none) line) :: f :: fs

/-- The name that a definition gives: its pipeline has to be a single string. -/
def definedName? (p : Pipeline) : Option String :=
  match p.targets, p.commands with
  | [], [[.const v]] => v.asString?
  | _, _ => none

/-! ## Sources -/

/-- Compiles segments inside the open frames, after some definitions, the latest first. -/
def compile (frames : List Frame) (done : List Definition) :
    List Segment → Build (List Definition)
  | [] =>
    match frames with
    | [] => return done.reverse
    | f :: _ => fail f.line .missingEnd
  | .text s :: segments => do
    Build.text (String.ofList s)
    compile frames done segments
  | .action statement line :: segments =>
    match Keyword.of statement with
    | .finish => do
      let (frames, ended) ← closeFrame frames
      compile frames (ended.toList ++ done) segments
    | .otherwise rest => do
      let frames ← elseFrame rest line frames
      compile frames done segments
    | .branch b subject => do
      let p ← Build.pipeline subject line
      let f ← openFrame (.branch b p false none) line
      compile (f :: frames) done segments
    | .define subject => do
      let p ← Build.pipeline subject line
      match definedName? p with
      | none => fail line .namelessDefine
      | some name =>
        let f ← openFrame (.define name (← get).context) line
        modify fun s => { s with context := .body }
        compile (f :: frames) done segments
    | .action => do
      Build.action statement line
      compile frames done segments

/-- Compiles a source to its definitions; what stands outside of them stays in the builder. -/
def compileSource (s : Settings) (source : List Char) : Build (List Definition) :=
  match Segment.ofSource s.delimiters source with
  | .ok segments => compile [] [] segments
  | .error f => throw f

/-- The templates of a source, with what happened on the way. Of two templates with one name the
later counts, and the source itself comes first. -/
def parse (s : Settings) (name source : String) : Except Fault (Table Template) × List Event :=
  match (compileSource s source.toList).run {} with
  | .ok definitions b =>
    let templates := (name, b.nodes) :: definitions.map fun d => (d.name, d.nodes)
    (.ok (Table.ofList (templates.map fun (name, nodes) => (name, { name, nodes }))),
      b.events.reverse)
  | .error f b => (.error (f.atPlace name 0), b.events.reverse)

end Stencil.Delimited
