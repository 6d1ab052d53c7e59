import Stencil.Log
import Stencil.Render.Context
import Stencil.Render.Output
import Stencil.Render.Scope

/-!
# The state of a rendering

* `Render.State` is the state: what the whole rendering shares, and the scopes and the output of the
  template that is running.
* `Run` are the computations on it. One that fails keeps the state that it reached.
* `Run.guarded` restores a part of the state after a computation, whether it succeeds or fails; all
  scoping is built from it.
-/

namespace Stencil

namespace Render

/-- The state of a rendering. -/
structure State where
  context : RenderContext
  /-- The output of the main template while its layout is rendered. -/
  mainContent : Option String := none
  /-- Whether the layout is rendered, rather than the main template. -/
  inLayout : Bool := false
  /-- The template that the running one extends. -/
  parent : Option String := none
  /-- The number of templates that are running. -/
  depth : Nat := 0
  /-- The scopes of the running template. -/
  scopes : Scopes := []
  /-- The output of the running template. -/
  output : Output := {}
  /-- What happened, the latest first. -/
  events : List Event := []

namespace State

/-- The data that the rendering was started with. -/
def root (s : State) : Value := s.context.dot

/-- Whether blocks are captured instead of written: in a template that extends another one, and in
the main template while its layout is still to come. -/
def isCapturing (s : State) : Bool :=
  s.parent.isSome || (s.context.layout.isSome && !s.inLayout)

end State

end Render

/-- A computation of a rendering. -/
abbrev Run := EStateM Fault Render.State

namespace Run

open Render

variable {α : Type}

/-- Stops with a cause. -/
def fail (c : Cause) : Run α := throw { cause := c }

/-- Runs a computation that has no state and may stop with a fault. -/
def attempt (r : Except Fault α) : Run α :=
  match r with
  | .ok a => pure a
  | .error f => throw f

/-- Runs a computation that has no state. -/
def lift (o : Outcome α) : Run α := attempt o.raised

/-- Records an event. -/
def emit (e : Event) : Run PUnit := modify fun s => { s with events := e :: s.events }

/-- Writes to the output of the running template. -/
def write (text : String) : Run PUnit := modify fun s => { s with output := s.output.write text }

/-- Attaches a place to the fault of a computation. -/
def located (template : String) (line : Nat) (act : Run α) : Run α := fun s =>
  match act s with
  | .ok a s => .ok a s
  | .error f s => .error (f.atPlace template line) s

/-- Runs a computation on a changed state and mends the state that it leaves, also if it fails. -/
def guarded (enter : State → State) (leave : State → State → State) (act : Run α) : Run α := fun s =>
  match act (enter s) with
  | .ok a t => .ok a (leave s t)
  | .error f t => .error f (leave s t)

/-- Runs a computation in a scope of its own. -/
def inScope (enter : Scopes → Scopes) (act : Run α) : Run α :=
  guarded (fun s => { s with scopes := enter s.scopes })
    (fun _ t => { t with scopes := t.scopes.tail }) act

/-- Runs a computation as a template of its own, with new scopes and output. -/
def isolated (dot : Value) (act : Run α) : Run α :=
  guarded
    (fun s => { s with scopes := Scopes.start dot, output := {}, depth := s.depth + 1 })
    (fun s t => { t with scopes := s.scopes, output := s.output, depth := t.depth - 1 }) act

/-- Runs a computation in which another template may be extended; the parent of the running template
stays what it was. -/
def keepingParent (act : Run α) : Run α :=
  guarded (fun s => { s with parent := none }) (fun s t => { t with parent := s.parent }) act

end Run

end Stencil
