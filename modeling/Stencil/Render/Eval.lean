import Stencil.Environment.Basic
import Stencil.Render.State

/-!
# Running templates

How the nodes of a template are run and its pipelines evaluated.

* `Composition` lists the calls that put templates together; they are part of the language and not in
  the table of functions.
* `Eval.command`, `Eval.commands` and `Eval.pipeline` evaluate; `Eval.node` and `Eval.nodes` run.

All of these are recursive over the template only. Where a call runs another template they use a
`Runner`, which is given to them, so that the recursion from template to template is a matter of its
own.
-/

namespace Stencil

/-- How a template of a name is run with some data. -/
abbrev Runner := String → Value → Run String

/-! ## Composition calls -/

/-- The calls that put templates together. -/
inductive Composition where
  | yield
  | contentFor
  | block
  | defineBlock
  | endBlock
  | extend
  | exec
  | rootDot
  | fallback
  deriving DecidableEq

namespace Composition

/-- The name of a call. -/
def name : Composition → String
  | .yield => "yield"
  | .contentFor => "content_for"
  | .block => "block"
  | .defineBlock => "define_block"
  | .endBlock => "end_block"
  | .extend => "extends"
  | .exec => "exec"
  | .rootDot => "root_dot"
  | .fallback => "fallback"

/-- All calls. -/
def all : List Composition :=
  [.yield, .contentFor, .block, .defineBlock, .endBlock, .extend, .exec, .rootDot, .fallback]

/-- The call of a name. -/
def ofName? (name : String) : Option Composition := all.find? (·.name = name)

end Composition

namespace Eval

open Render

/-- The value of a call that writes by itself. -/
def nothing : Value := .safeText ""

/-- The first argument as a text. -/
def stringArg (c : Composition) (expected : Expected) (args : List Value) : Outcome String :=
  match args.head?.bind Value.asString? with
  | some s => return s
  | none => throw (.expects c.name expected)

/-- The content of a block for a context that accepts it. -/
def blockContent (slot : String) (b : Block) (context : HtmlContext) : Outcome String :=
  if b.kind.accepts context then return b.content else throw (.wrongContext slot b.kind context)

/-- The output of another template as a value. -/
def ranTemplate (run : Runner) (template : String) (dot : Value) : Run Value := do
  return .safeText (← run template dot)

/-! ## Yield -/

/-- The data and the fallback among the arguments of a `yield` after its slot. -/
def yieldArgs (data : Option Value) (fallback : Option String) :
    List Value → Outcome (Option Value × Option String)
  | [] => return (data, fallback)
  | v :: vs =>
    match v.asFallback?, data with
    | some template, _ => yieldArgs data (some template) vs
    | none, none => yieldArgs (some v) fallback vs
    | none, some _ => throw (.expects Composition.yield.name .slotDataAndFallback)

/-- The main content: what the main template has written already, unless there is data for it. -/
def yieldMain (run : Runner) (data : Option Value) : Run Value := do
  let s ← get
  match data, s.mainContent with
  | none, some content => return .safeText content
  | _, _ =>
    match s.context.main with
    | none => Run.fail .noMainToYield
    | some main => ranTemplate run main (data.getD s.root)

/-- The content of a slot: its template, its block, or the fallback. -/
def yieldSlot (run : Runner) (context : HtmlContext) (slot : String) (data : Option Value)
    (fallback : Option String) : Run Value := do
  let s ← get
  let dot := data.getD s.root
  match Table.get? slot s.context.yields, Table.get? slot s.context.blocks, fallback with
  | some template, _, _ => do
    Run.emit (.yieldTemplate slot template)
    ranTemplate run template dot
  | none, some b, _ => do
    Run.emit (.yieldBlock slot)
    return .safeText (← Run.lift (blockContent slot b context))
  | none, none, some template => do
    Run.emit (.yieldFallback slot template)
    ranTemplate run template dot
  | none, none, none => return nothing

/-- Evaluates `yield`. -/
def yieldContent (run : Runner) (context : HtmlContext) (args : List Value) : Run Value := do
  match args with
  | .string slot _ :: rest =>
    let (data, fallback) ← Run.lift (yieldArgs none none rest)
    yieldSlot run context slot data fallback
  | args =>
    let (data, _) ← Run.lift (yieldArgs none none args)
    yieldMain run data

/-! ## Blocks -/

/-- Opens a frame. -/
def pushFrame (f : Frame) : Run PUnit := modify fun s => { s with output := s.output.push f }

/-- Opens a frame that captures text for a slot. -/
def capture (slot : String) (context : HtmlContext) : Run PUnit :=
  pushFrame (.capture slot (.ofContext context) "")

/-- Opens a block: its text is captured, replaced by the content of the slot, or written. -/
def openBlock (run : Runner) (context : HtmlContext) (slot : String) : Run PUnit := do
  let s ← get
  if s.isCapturing then capture slot context
  else
    match Table.get? slot s.context.yields, Table.get? slot s.context.blocks with
    | some template, _ => do
      Run.emit (.blockTemplate slot template)
      let text ← run template s.root
      Run.write text
      pushFrame .discard
    | none, some b => do
      Run.emit (.blockContent slot)
      let text ← Run.lift (blockContent slot b context)
      Run.write text
      pushFrame .discard
    | none, none => pushFrame .through

/-- Closes a block. Captured text fills its slot unless the slot is claimed. -/
def closeBlock : Run PUnit := do
  let s ← get
  let (frame, output) := s.output.pop
  match frame with
  | none => Run.fail .noOpenBlock
  | some (.capture slot kind content) =>
    if s.context.isClaimed slot then
      set { s with output }
      Run.emit (.blockClaimed slot)
    else
      set { s with output, context := s.context.fillSlot slot { content, kind } }
      Run.emit (.blockCaptured slot)
  | some _ => set { s with output }

/-! ## Calls -/

/-- Evaluates a composition call. -/
def compose (run : Runner) (context : HtmlContext) (c : Composition) (args : List Value) :
    Run Value := do
  match c with
  | .yield => yieldContent run context args
  | .contentFor =>
    match args with
    | [.string slot _, .string template _] =>
      Run.emit (.slotMapped slot template)
      modify fun s => { s with context := s.context.mapSlot slot template }
      return nothing
    | _ => Run.fail (.expects c.name .slotAndTemplate)
  | .block =>
    let slot ← Run.lift (stringArg c .slot args)
    openBlock run context slot
    return nothing
  | .defineBlock =>
    let slot ← Run.lift (stringArg c .slot args)
    capture slot context
    return nothing
  | .endBlock =>
    closeBlock
    return nothing
  | .extend =>
    let template ← Run.lift (stringArg c .template args)
    modify fun s => { s with parent := some template, output := s.output.discardRoot }
    return nothing
  | .exec =>
    let template ← Run.lift (stringArg c .template args)
    let dot := (args[1]?).getD (← get).root
    ranTemplate run template dot
  | .rootDot => return (← get).root
  | .fallback =>
    let template ← Run.lift (stringArg c .template args)
    return .fallback template

/-- Evaluates a call. Composition calls come before the functions of the environment. -/
def call (e : Environment) (run : Runner) (context : HtmlContext) (name : String)
    (args : List Value) : Run Value :=
  match Composition.ofName? name with
  | some c => compose run context c args
  | none =>
    match Table.get? name e.functions with
    | some f => Run.attempt (f args)
    | none => Run.fail (.unknownFunction name)

/-! ## Pipelines -/

/-- The value of a variable. -/
def lookup (name : String) : Run Value := do
  match Scopes.lookup? name (← get).scopes with
  | some v => return v
  | none => Run.fail (.undefinedVariable name)

mutual

/-- Evaluates an operand. -/
def operand (e : Environment) (run : Runner) (context : HtmlContext) : Expr → Run Value
  | .dot => return Scopes.dot (← get).scopes
  | .field names => do Run.lift ((Scopes.dot (← get).scopes).fields names)
  | .variable name fields => do
    let v ← lookup name
    Run.lift (v.fields fields)
  | .call name => call e run context name []
  | .const v => return v
  | .group ⟨_, _, cs⟩ fields => do
    let v ← commands e run context none cs
    Run.lift (v.fields fields)

/-- Evaluates the operands of a command from left to right. -/
def operands (e : Environment) (run : Runner) (context : HtmlContext) : List Expr → Run (List Value)
  | [] => return []
  | x :: xs => do
    let v ← operand e run context x
    let vs ← operands e run context xs
    return v :: vs

/-- Evaluates a command, with the value that a pipe passes on to it. -/
def command (e : Environment) (run : Runner) (context : HtmlContext) (last : Option Value) :
    List Expr → Run Value
  | .call name :: xs => do
    let args ← operands e run context xs
    call e run context name (args ++ last.toList)
  | [x] =>
    if last.isNone then operand e run context x else Run.fail .argumentToValue
  | [] => Run.fail .emptyCommand
  | _ => Run.fail .argumentToValue

/-- Evaluates commands, each with the value of the one before it. -/
def commands (e : Environment) (run : Runner) (context : HtmlContext) (last : Option Value) :
    List (List Expr) → Run Value
  | [] => return last.getD .undefined
  | c :: cs => do
    let v ← command e run context last c
    commands e run context (some v) cs

end

/-- Declares a variable. -/
def declare (name : String) (v : Value) : Run PUnit :=
  modify fun s => { s with scopes := Scopes.declare name v s.scopes }

/-- Assigns to a variable. -/
def assign (name : String) (v : Value) : Run PUnit := do
  let s ← get
  match Scopes.assign? name v s.scopes with
  | some scopes => set { s with scopes }
  | none => Run.fail (.undefinedVariable name)

/-- Sets the variables of a pipeline to its value. -/
def bind (assigns : Bool) (v : Value) : List String → Run PUnit
  | [] => pure ()
  | name :: names => do
    if assigns then assign name v else declare name v
    bind assigns v names

/-- Evaluates a pipeline. -/
def pipeline (e : Environment) (run : Runner) (context : HtmlContext) (p : Pipeline) : Run Value := do
  let v ← commands e run context none p.commands
  bind p.assigns v p.targets
  return v

/-! ## Loops -/

/-- Declares the variables of a loop for one pass: one for the element, or two for key and element. -/
def bindPair (key item : Value) : List String → Run PUnit
  | [x] => declare x item
  | [k, x] => do
    declare k key
    declare x item
  | _ => pure ()

/-- One pass of a loop. -/
def pass (targets : List String) (key item : Value) (body : Run PUnit) : Run PUnit :=
  Run.inScope (Scopes.push item) do
    bindPair key item targets
    body

/-- The passes over a list of pairs. -/
def passes (targets : List String) (body : Run PUnit) : List (Value × Value) → Run PUnit
  | [] => pure ()
  | (key, item) :: ps => do
    pass targets key item body
    passes targets body ps

/-- The passes over `n` numbers from `i` on. -/
def passesFrom (targets : List String) (body : Run PUnit) (i : Nat) : Nat → Run PUnit
  | 0 => pure ()
  | n + 1 => do
    pass targets (.int i) (.int i) body
    passesFrom targets body (i + 1) n

/-- Runs the body for all pairs, or else the other nodes if there is none. -/
def loop (targets : List String) (body otherwise : Run PUnit) : Value.Pairs → Run PUnit
  | .listed [] => otherwise
  | .below 0 => otherwise
  | .listed ps => passes targets body ps
  | .below n => passesFrom targets body 0 n

/-! ## Nodes -/

mutual

/-- Runs a node of the template `t`. -/
def node (e : Environment) (run : Runner) (t : Template) : Node → Run PUnit
  | .text s => Run.write s
  | .action line context p => do
    let v ← Run.located t.name line (pipeline e run context p)
    if p.targets.isEmpty then Run.write (v.written t.escape context) else pure ()
  | .cond line negated p body otherwise => Run.inScope Scopes.pushSame do
    let v ← Run.located t.name line (pipeline e run .body p)
    if v.isTrue ≠ negated then Run.inScope Scopes.pushSame (nodes e run t body)
    else Run.inScope Scopes.pushSame (nodes e run t otherwise)
  | .range line p body otherwise => Run.located t.name line <| Run.inScope Scopes.pushSame do
    let v ← commands e run .body none p.commands
    let pairs ← Run.lift v.pairs
    loop p.targets (nodes e run t body)
      (Run.inScope Scopes.pushSame (nodes e run t otherwise)) pairs
  | .scope line p body otherwise => Run.inScope Scopes.pushSame do
    let v ← Run.located t.name line (pipeline e run .body p)
    if v.isTrue then Run.inScope (Scopes.push v) (nodes e run t body)
    else Run.inScope Scopes.pushSame (nodes e run t otherwise)
  | .template line name p => do
    let dot ← match p with
      | some p => Run.located t.name line (pipeline e run .body p)
      | none => pure .undefined
    let text ← Run.located t.name line (run name dot)
    Run.write text

/-- Runs some nodes of the template `t`. -/
def nodes (e : Environment) (run : Runner) (t : Template) : List Node → Run PUnit
  | [] => pure ()
  | n :: ns => do
    node e run t n
    nodes e run t ns

end

end Eval

end Stencil
