import Stencil.Log
import Stencil.Pipeline.Parser
import Stencil.Settings
import Stencil.Template.Basic

/-!
# Building templates

Front ends write all their output through a builder. It merges literal text into one node, and it
follows the HTML context over that text, so that the context of every action is known when the
action is compiled.

* `Interpolated.scan` splits a text into literal text and statements between delimiters.
* `Builder` is the state, `Build` the computations on it; a failing computation keeps what it wrote.
* `Build.text`, `Build.action` and `Build.interpolated` write; `Build.nested` collects a list of nodes
  of its own.
-/

namespace Stencil

/-! ## Interpolations -/

/-- A text with statements in it: each with the literal text before it, and the text after the
last. -/
structure Interpolated where
  parts : List (List Char × List Char)
  rest : List Char

/-- Splits a text at its delimiters. A left delimiter without a right one after it is text, and so is
what follows. -/
def Interpolated.scan (d : Delimiters) (s : List Char) : Interpolated :=
  match h : Text.cut? d.opening s with
  | none => { parts := [], rest := s }
  | some (before, t) =>
    match h' : Text.cut? d.closing t with
    | none => { parts := [], rest := s }
    | some (statement, rest) =>
      have := Text.cut?_length_lt d.opening_ne_nil h
      have := Text.cut?_length_lt d.closing_ne_nil h'
      let i := scan d rest
      { i with parts := (before, statement) :: i.parts }
  termination_by s.length

/-! ## The builder -/

/-- The output of a front end so far, with the latest node and event first. -/
structure Builder where
  /-- The context that output written now ends up in. -/
  context : HtmlContext := .body
  emitted : List Node := []
  events : List Event := []

namespace Builder

/-- The nodes written so far. -/
def nodes (b : Builder) : List Node := b.emitted.reverse

/-- Writes a node. -/
def push (b : Builder) (n : Node) : Builder := { b with emitted := n :: b.emitted }

/-- Writes literal text, merged with text right before it. -/
def text (b : Builder) (s : String) : Builder :=
  if s = "" then b
  else
    let b := { b with context := b.context.feed s.toList }
    match b.emitted with
    | .text t :: ns => { b with emitted := .text (t ++ s) :: ns }
    | ns => { b with emitted := .text s :: ns }

end Builder

/-- A computation that writes to a builder. -/
abbrev Build := EStateM Fault Builder

namespace Build

/-- Writes literal text. -/
def text (s : String) : Build PUnit := modify (·.text s)

/-- Writes a single space if padding is wanted. -/
def space (pad : Bool) : Build PUnit := if pad then text " " else pure ()

/-- Stops with a cause in a statement. -/
def failIn {α : Type} (statement : List Char) (line : Nat) (c : Cause) : Build α :=
  throw (Fault.inStatement { cause := c } (String.ofList statement) line)

/-- The pipeline of a statement. -/
def pipeline (statement : List Char) (line : Nat) : Build Pipeline :=
  match parsePipeline statement with
  | .ok p => pure p
  | .error c => failIn statement line c

/-- The node of a statement: an action, or the run of another template. -/
def actionNode (context : HtmlContext) (statement : List Char) (line : Nat) : Outcome Node := do
  match ← parseTemplateCall statement with
  | some call => return .template line call.name call.pipeline
  | none =>
    let p ← parsePipeline statement
    return .action line context p

/-- Writes the node of a statement. -/
def action (statement : List Char) (line : Nat) : Build PUnit := do
  match actionNode (← get).context statement line with
  | .ok n => modify (·.push n)
  | .error c => failIn statement line c

/-- Writes the action of an interpolation. One that cannot be read stays text, with a space after it
if padding is wanted, unless interpolation is strict. -/
def interpolation (s : Settings) (pad : Bool) (line : Nat) (statement : List Char) : Build PUnit := do
  match actionNode (← get).context statement line with
  | .ok n => modify (·.push n)
  | .error c =>
    let f := Fault.inStatement { cause := c } (String.ofList statement) line
    if s.strictInterpolation then throw f
    else
      let source := s.delimiters.left ++ String.ofList statement ++ s.delimiters.right
      modify fun b => { b with events := .keptAsText line source f :: b.events }
      text source
      space pad

/-- Writes the interpolations of a text with the text before each. -/
def interpolations (s : Settings) (pad : Bool) (line : Nat) :
    List (List Char × List Char) → Build PUnit
  | [] => pure ()
  | (before, statement) :: parts => do
    text (String.ofList before)
    interpolation s pad line statement
    interpolations s pad line parts

/-- Writes a text with interpolations. With padding a space follows the text, unless the text ends
in an interpolation. -/
def interpolated (s : Settings) (source : List Char) (pad : Bool) (line : Nat) : Build PUnit := do
  let i := Interpolated.scan s.delimiters source
  interpolations s pad line i.parts
  if i.rest.isEmpty && !i.parts.isEmpty then pure ()
  else
    text (String.ofList i.rest)
    space pad

/-- Runs a computation on an empty list of nodes and gives the nodes that it writes; the nodes
written before stay. -/
def nested (act : Build PUnit) : Build (List Node) := do
  let outer := (← get).emitted
  modify fun b => { b with emitted := [] }
  act
  let inner := (← get).nodes
  modify fun b => { b with emitted := outer }
  return inner

end Build

end Stencil
