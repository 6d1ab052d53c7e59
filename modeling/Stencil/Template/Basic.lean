import Stencil.Html.Context
import Stencil.Pipeline.Basic

/-!
# Templates

Every front end compiles its sources to the same nodes, and these are what an environment renders.
-/

namespace Stencil

/-- A node of a template. Lines are those of the source, from one. -/
inductive Node where
  /-- Literal text. -/
  | text (s : String)
  /-- Writes the value of a pipeline into a context. -/
  | action (line : Nat) (context : HtmlContext) (pipeline : Pipeline)
  /-- Chooses by the truth of a pipeline, or by its falsity if negated. -/
  | cond (line : Nat) (negated : Bool) (pipeline : Pipeline) (body otherwise : List Node)
  /-- Runs the body for every element of a value, or the other nodes if there is none. -/
  | range (line : Nat) (pipeline : Pipeline) (body otherwise : List Node)
  /-- Runs the body with a true value as the current data, or the other nodes. -/
  | scope (line : Nat) (pipeline : Pipeline) (body otherwise : List Node)
  /-- Runs another template. -/
  | template (line : Nat) (name : String) (pipeline : Option Pipeline)

/-- A compiled template with its logical name. -/
structure Template where
  name : String
  nodes : List Node
  escape : AutoEscape := .off

end Stencil
