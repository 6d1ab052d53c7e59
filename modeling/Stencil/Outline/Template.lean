import Stencil.Outline.Tag
import Stencil.Outline.Tree
import Stencil.Template.Builder

/-!
# Templates from outlines

An outline is compiled to one template. Text and tags are padded with a space where a line ended, so
that words of different lines stay apart.

* `Tree.emit` writes a node of an outline to a builder, `compile` a whole source.
* `parse` compiles a source under its name without the extension of outlines.
-/

namespace Stencil.Outline

/-- Runs a computation that may stop with a cause at a line. -/
def atLine {α : Type} (line : Nat) (o : Outcome α) : Build α :=
  match o with
  | .ok a => pure a
  | .error c => throw (Line.fault line c)

/-- The statement that the text after a tag is, if it starts with an equals sign. -/
def inlineStatement? (trailing : List Char) : Option (List Char) :=
  (Text.after? ['='] (Text.trimStart trailing)).map Text.trim

/-- Writes an opening tag. Only attribute values can hold interpolations. -/
def emitOpening (s : Settings) (t : Tag) (pad : Bool) (line : Nat) : Build PUnit :=
  let opening := t.opening s.idSeparator
  if t.executable then Build.interpolated s opening pad line
  else do
    Build.text (String.ofList opening)
    Build.space pad

/-- Writes the text after a tag. -/
def emitTrailing (s : Settings) (trailing : List Char) (line : Nat) : Build PUnit :=
  match inlineStatement? trailing with
  | some statement => Build.action statement line
  | none => Build.interpolated s trailing true line

mutual

/-- Writes a node. -/
def Tree.emit (s : Settings) : Tree → Build PUnit
  | .raw _ literal => Build.text literal
  | .text place content => Build.interpolated s content true place.line
  | .statement place content => Build.action content place.line
  | .leaf place content => do
    let (tag, trailing) ← atLine place.line (Tag.parse s.delimiters content)
    if trailing.isEmpty then
      emitOpening s tag false place.line
      Build.text (String.ofList tag.closing)
    else
      emitOpening s tag true place.line
      emitTrailing s trailing place.line
      Build.interpolated s tag.closing true place.line
  | .opening place content => do
    let (tag, trailing) ← atLine place.line (Tag.parse s.delimiters content)
    emitOpening s tag false place.line
    if trailing.isEmpty then pure () else emitTrailing s trailing place.line
  | .closing place content => do
    let (tag, _) ← atLine place.line (Tag.parse s.delimiters content)
    Build.text (String.ofList tag.closing)
  | .cond place negated subject body otherwise => do
    let p ← Build.pipeline subject place.line
    let body ← Build.nested (emitAll s body)
    let otherwise ← Build.nested (emitAll s otherwise)
    modify (·.push (.cond place.line negated p body otherwise))
  | .range place subject body otherwise => do
    let p ← Build.pipeline subject place.line
    let body ← Build.nested (emitAll s body)
    let otherwise ← Build.nested (emitAll s otherwise)
    modify (·.push (.range place.line p body otherwise))
  | .scope place subject body => do
    let p ← Build.pipeline subject place.line
    let body ← Build.nested (emitAll s body)
    modify (·.push (.scope place.line p body []))
  | .filter place handler body =>
    Build.interpolated s (handler.apply (String.ofList body)).toList false place.line

/-- Writes some nodes. -/
def Tree.emitAll (s : Settings) : List Tree → Build PUnit
  | [] => pure ()
  | t :: ts => do
    Tree.emit s t
    Tree.emitAll s ts

end

/-- Stops with the fault of a computation that has no output. -/
def ofExcept {α : Type} (e : Except Fault α) : Build α :=
  match e with
  | .ok a => pure a
  | .error f => throw f

/-- Compiles a source. -/
def compile (s : Settings) (source : List Char) : Build PUnit := do
  let ls ← ofExcept (Line.classify s.strictIndentation source)
  let ts ← ofExcept (analyze s ls)
  Tree.emitAll s ts

/-- The file name extension of outlines with its dot. -/
def extensionMark : List Char := ".bham".toList

/-- A name without its first extension of outlines. -/
def baseName (name : String) : String :=
  match Text.cut? extensionMark name.toList with
  | some (before, rest) => String.ofList (before ++ rest)
  | none => name

/-- The template of a source, with what happened on the way. -/
def parse (s : Settings) (name source : String) : Except Fault (Table Template) × List Event :=
  let name := baseName name
  match (compile s source.toList).run {} with
  | .ok _ b => (.ok [(name, { name, nodes := b.nodes })], b.events.reverse)
  | .error f b => (.error (f.atPlace name 0), b.events.reverse)

end Stencil.Outline
