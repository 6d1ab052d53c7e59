import Stencil.Pipeline.Basic
import Stencil.Pipeline.Lexer

/-!
# Reading pipelines

A statement is read in one pass over its tokens. The pipelines that are open at a token, one for
each parenthesis around it, are kept in a list of drafts.

* `Draft` is a pipeline part way through.
* `Draft.read` reads on in a draft; a field belongs to the operand that it directly follows.
* `parsePipeline` reads a statement, `parseTemplateCall` one that may run another template.
-/

namespace Stencil

/-- A token, and whether it directly follows the token before it. -/
structure Glued where
  token : Token
  glued : Bool

/-- The tokens with what each needs to know of its place. -/
def Glued.ofLexemes (stop : Option UInt32) : List Lexeme → List Glued
  | [] => []
  | l :: ls => ⟨l.token, stop = some l.start⟩ :: ofLexemes (some l.stop) ls

/-- A pipeline part way through, with its latest command and operand first. -/
structure Draft where
  targets : List String := []
  assigns : Bool := false
  commands : List Command := []
  operands : List Expr := []

namespace Draft

/-- The deepest nesting of parentheses. -/
def maxDepth : Nat := 150

/-- Adds an operand to the command that is being read. -/
def push (d : Draft) (e : Expr) : Draft := { d with operands := e :: d.operands }

/-- Ends the command that is being read. -/
def endCommand (d : Draft) : Outcome Draft :=
  match d.operands.reverse with
  | [] => throw .missingCommand
  | .const value :: _ :: _ => throw (.argumentToConstant value)
  | command => return { d with commands := command :: d.commands, operands := [] }

/-- The pipeline of a draft whose commands have all ended. -/
def finish (d : Draft) : Pipeline :=
  { targets := d.targets, assigns := d.assigns, commands := d.commands.reverse }

/-- Adds a field: to the latest operand if it directly follows it, and as an operand of its own
otherwise. -/
def pushField (d : Draft) (name : String) (glued : Bool) : Outcome Draft :=
  match glued, d.operands with
  | true, .dot :: _ => throw .fieldAfterDot
  | true, .call f :: _ => throw (.fieldOfFunction f)
  | true, .field names :: es => return { d with operands := .field (names ++ [name]) :: es }
  | true, .variable v fields :: es =>
    return { d with operands := .variable v (fields ++ [name]) :: es }
  | true, .group p fields :: es => return { d with operands := .group p (fields ++ [name]) :: es }
  | _, es => return { d with operands := .field [name] :: es }

/-- The operand of a word. -/
def wordOperand (name : String) : Expr :=
  if name = "true" then .const (.bool true)
  else if name = "false" then .const (.bool false)
  else if name = "nil" then .const .none
  else .call name

/-- A new draft with the variables at the start of some tokens, and the number of tokens that they
take. -/
def start : List Glued → Draft × Nat
  | ⟨.variable a, _⟩ :: ⟨.declare, _⟩ :: _ => ({ targets := [a] }, 2)
  | ⟨.variable a, _⟩ :: ⟨.assign, _⟩ :: _ => ({ targets := [a], assigns := true }, 2)
  | ⟨.variable a, _⟩ :: ⟨.comma, _⟩ :: ⟨.variable b, _⟩ :: ⟨.declare, _⟩ :: _ =>
    ({ targets := [a, b] }, 4)
  | ⟨.variable a, _⟩ :: ⟨.comma, _⟩ :: ⟨.variable b, _⟩ :: ⟨.assign, _⟩ :: _ =>
    ({ targets := [a, b], assigns := true }, 4)
  | _ => ({}, 0)

/-- Reads on in the draft `d` inside the drafts `outer`, after passing over `skip` tokens. -/
def read (outer : List Draft) (d : Draft) (skip : Nat) : List Glued → Outcome Pipeline
  | [] => do
    let d ← d.endCommand
    if outer.isEmpty then return d.finish else throw (.unexpectedEnd .closeParen)
  | t :: ts =>
    match skip with
    | n + 1 => read outer d n ts
    | 0 =>
      match t.token with
      | .pipe => do read outer (← d.endCommand) 0 ts
      | .closeParen => do
        let d ← d.endCommand
        match outer with
        | [] => throw (.unexpectedToken .closeParen .endOfPipeline)
        | o :: outer => read outer (o.push (.group d.finish [])) 0 ts
      | .openParen =>
        if maxDepth ≤ outer.length then throw .nestedTooDeep
        else
          let (inner, n) := start ts
          read (d :: outer) inner n ts
      | .field name => do read outer (← d.pushField name t.glued) 0 ts
      | .dot => read outer (d.push .dot) 0 ts
      | .variable name => read outer (d.push (.variable name [])) 0 ts
      | .word name => read outer (d.push (wordOperand name)) 0 ts
      | .verbatim s => read outer (d.push (.const (.text s))) 0 ts
      | .string s => read outer (d.push (.const (.text s))) 0 ts
      | .int n => read outer (d.push (.const (.int n))) 0 ts
      | .float x => read outer (d.push (.const (.float x))) 0 ts
      | .declare => throw (.unexpectedToken .declare .operand)
      | .assign => throw (.unexpectedToken .assign .operand)
      | .comma => throw (.unexpectedToken .comma .operand)

end Draft

/-- The pipeline that some tokens spell. -/
def Pipeline.ofTokens (ts : List Glued) : Outcome Pipeline :=
  let (d, n) := Draft.start ts
  Draft.read [] d n ts

/-- Reads a statement. -/
def parsePipeline (s : List Char) : Outcome Pipeline := do
  let ls ← tokenize s
  if ls.isEmpty then throw .missingValue
  Pipeline.ofTokens (Glued.ofLexemes none ls)

/-- Reads a statement `template "name" [pipeline]`; a statement that does not start with the word
`template` is none. -/
def parseTemplateCall (s : List Char) : Outcome (Option TemplateCall) := do
  match ← Lexeme.next 0 s with
  | some (⟨.word "template", _, _⟩, s) =>
    let (name, s) ← match ← Lexeme.next 0 s with
      | some (⟨.verbatim name, _, _⟩, s) => pure (name, s)
      | some (⟨.string name, _, _⟩, s) => pure (name, s)
      | some (l, _) => throw (.unexpectedToken l.token .templateName)
      | none => throw (.unexpectedEnd .templateName)
    if Text.isBlank s then return some { name, pipeline := none }
    else
      let p ← parsePipeline s
      return some { name, pipeline := some p }
  | _ => return none

end Stencil
