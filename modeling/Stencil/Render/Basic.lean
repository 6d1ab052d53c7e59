import Stencil.Render.Eval

/-!
# Rendering

How templates run one another, and the rendering of a context.

* `execute` runs the nodes of one template, `followParents` the templates that it extends, and
  `runner` ties the two to the calls inside of templates.
* `render` renders the main template of a context, and the layout around it.

No more than `maxDepth` templates run inside one another and no chain of parents is longer than
`maxParents`, so every rendering ends. The recursion of `runner` is on the room that is left for
templates; the limit on the depth is reached before it is used up.
-/

namespace Stencil

namespace Render

/-- How many templates may run inside one another. -/
def maxDepth : Nat := 64

/-- How many templates may be extended one after the other. -/
def maxParents : Nat := 32

/-- The output of the running template once all of its blocks are closed. -/
def finished : Run String := do
  let o := (← get).output
  if o.frames.isEmpty then return o.root else Run.fail .openBlock

/-- Runs the nodes of a template with some data. -/
def execute (e : Environment) (run : Runner) (name : String) (dot : Value) : Run String := do
  let t ← Run.lift (e.template name)
  if maxDepth ≤ (← get).depth then Run.fail .recursionLimit
  else
    Run.located t.name 0 <| Run.isolated dot do
      Eval.nodes e run t t.nodes
      finished

/-- The template that the one that has run extends; from now on there is none. -/
def takeParent : Run (Option String) := do
  let s ← get
  set { s with parent := none }
  return s.parent

/-- Runs the parent of the template that has run, and its parent in turn, as long as there is one;
`output` is what has been rendered last. -/
def followParents (exec : Runner) (name : String) : Nat → String → Run String
  | 0, output => do
    match ← takeParent with
    | none => return output
    | some _ => Run.fail (.extendsTooMany name)
  | n + 1, output => do
    match ← takeParent with
    | none => return output
    | some parent =>
      Run.emit (.renderingParent parent name)
      let output ← exec parent (← get).root
      followParents exec name n output

/-- Runs a template and the templates that it extends. -/
def runChain (exec : Runner) (name : String) (dot : Value) : Run String :=
  Run.keepingParent do
    let output ← exec name dot
    followParents exec name maxParents output

/-- Runs a template with `room` for it and for the templates that run inside it. -/
def runner (e : Environment) : (room : Nat) → Runner
  | 0 => fun _ _ => Run.fail .recursionLimit
  | room + 1 => runChain (execute e (runner e room))

/-- Runs a template from the outside. -/
def runTemplate (e : Environment) : Runner := runner e (maxDepth + 1)

/-- Renders the main template, and the layout around it if there is one. -/
def renderMain (e : Environment) : Run String := do
  let s ← get
  match s.context.main with
  | none => Run.fail .noMain
  | some main =>
    Run.emit (.rendering main s.context.layout)
    match s.context.layout with
    | none => runTemplate e main s.root
    | some layout =>
      let content ← runTemplate e main s.root
      modify fun s => { s with mainContent := some content, inLayout := true }
      runTemplate e layout s.root

end Render

namespace Environment

/-- Renders a context, and tells what happened on the way. -/
def render (e : Environment) (c : RenderContext) : Except Fault String × List Event :=
  match (Render.renderMain e).run { context := c } with
  | .ok text s => (.ok text, s.events.reverse)
  | .error f s => (.error f, s.events.reverse)

/-- Renders a template in place of the main template of a context. -/
def renderTemplate (e : Environment) (t : Template) (c : RenderContext) :
    Except Fault String × List Event :=
  e.render { c with main := some t.name }

/-- Renders a template for a reader that may refuse the text, and gives what the reader has got. The
text is offered once rendering has succeeded, and only if there is any. -/
def renderTo (e : Environment) (accepts : String → Bool) (t : Template) (c : RenderContext) :
    Except Fault String × List Event :=
  match e.renderTemplate t c with
  | (.ok text, events) =>
    if text = "" || accepts text then (.ok text, events)
    else (.error { cause := .writeFailed }, events)
  | failed => failed

end Environment

end Stencil
