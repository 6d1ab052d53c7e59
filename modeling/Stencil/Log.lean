import Stencil.Fault

/-!
# The log

What happens while templates are compiled, registered and rendered, as far as it is worth a line in
a log. Every computation that has such events collects them; `Event.level` and `Event.message` give
the line of each.
-/

namespace Stencil

/-- How much attention a line deserves. -/
inductive Level where
  | warn
  | debug
  | trace
  deriving DecidableEq

/-- The name of a level. -/
def Level.name : Level → String
  | .warn => "warn"
  | .debug => "debug"
  | .trace => "trace"

/-- What happened. -/
inductive Event where
  /-- An interpolation could not be read and stays text. -/
  | keptAsText (line : Nat) (source : String) (fault : Fault)
  | registered (template : String) (nodes : Nat) (escape : AutoEscape)
  | rendering (template : String) (layout : Option String)
  | renderingParent (parent template : String)
  | slotMapped (slot template : String)
  | yieldTemplate (slot template : String)
  | yieldBlock (slot : String)
  | yieldFallback (slot template : String)
  | blockTemplate (slot template : String)
  | blockContent (slot : String)
  | blockClaimed (slot : String)
  | blockCaptured (slot : String)

namespace Event

/-- The level of an event. -/
def level : Event → Level
  | .keptAsText .. => .warn
  | .registered .. | .rendering .. => .debug
  | _ => .trace

/-- The line of an event. -/
def message : Event → String
  | .keptAsText line source fault =>
    s!"line {line}: keeping interpolation {Text.quoted source} as text: {fault.message}"
  | .registered template nodes escape =>
    s!"registered template {template} ({nodes} nodes, auto escape: {escape.name})"
  | .rendering template layout =>
    "rendering " ++ template ++ " (layout: " ++ layout.getD "none" ++ ")"
  | .renderingParent parent template => s!"rendering {parent} extended by {template}"
  | .slotMapped slot template => s!"slot {slot} now yields {template}"
  | .yieldTemplate slot template => s!"yield {slot}: rendering {template}"
  | .yieldBlock slot => s!"yield {slot}: using rendered block"
  | .yieldFallback slot template => s!"yield {slot}: falling back to {template}"
  | .blockTemplate slot template => s!"block {slot}: rendering {template}"
  | .blockContent slot => s!"block {slot}: using rendered block"
  | .blockClaimed slot => s!"block {slot} is already claimed"
  | .blockCaptured slot => s!"captured block {slot}"

end Event

end Stencil
