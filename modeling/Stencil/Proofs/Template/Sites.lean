import Stencil.Template.Basic

/-!
# The parts of a template

What a template consists of at any depth, so that a condition on all of its texts or pipelines can be
written down.

* `Expr.leaves` are the operands of a pipeline that are no groups: fields, variables, calls, constants.
* `Node.texts` are the literal texts of a node, and `Node.sites` its pipelines, each with the context
  that it is evaluated in: that of the action, and the body for the subject of a branch.
* `Template.texts` and `Template.sites` collect these over a template.
-/

namespace Stencil

/-! ## Pipelines -/

namespace Expr

mutual

/-- The operands of an operand that are no groups. -/
def leaves : Expr → List Expr
  | .group ⟨_, _, cs⟩ _ => leavesOfCommands cs
  | .dot => [.dot]
  | .field names => [.field names]
  | .variable name fields => [.variable name fields]
  | .call name => [.call name]
  | .const v => [.const v]

/-- The leaves of the operands of a command. -/
def leavesOfOperands : List Expr → List Expr
  | [] => []
  | x :: xs => leaves x ++ leavesOfOperands xs

/-- The leaves of some commands. -/
def leavesOfCommands : List (List Expr) → List Expr
  | [] => []
  | c :: cs => leavesOfOperands c ++ leavesOfCommands cs

end

end Expr

/-- The leaves of a pipeline. -/
def Pipeline.leaves (p : Pipeline) : List Expr := Expr.leavesOfCommands p.commands

/-! ## Nodes -/

namespace Node

mutual

/-- The literal texts of a node. -/
def texts : Node → List String
  | .text s => [s]
  | .action .. => []
  | .cond _ _ _ body otherwise => textsOf body ++ textsOf otherwise
  | .range _ _ body otherwise => textsOf body ++ textsOf otherwise
  | .scope _ _ body otherwise => textsOf body ++ textsOf otherwise
  | .template .. => []

/-- The literal texts of some nodes. -/
def textsOf : List Node → List String
  | [] => []
  | n :: ns => texts n ++ textsOf ns

end

mutual

/-- The pipelines of a node, each with the context that it is evaluated in. -/
def sites : Node → List (HtmlContext × Pipeline)
  | .text _ => []
  | .action _ context p => [(context, p)]
  | .cond _ _ p body otherwise => (.body, p) :: (sitesOf body ++ sitesOf otherwise)
  | .range _ p body otherwise => (.body, p) :: (sitesOf body ++ sitesOf otherwise)
  | .scope _ p body otherwise => (.body, p) :: (sitesOf body ++ sitesOf otherwise)
  | .template _ _ p => p.toList.map ((.body, ·))

/-- The pipelines of some nodes. -/
def sitesOf : List Node → List (HtmlContext × Pipeline)
  | [] => []
  | n :: ns => sites n ++ sitesOf ns

end

end Node

namespace Template

/-- The literal texts of a template. -/
def texts (t : Template) : List String := Node.textsOf t.nodes

/-- The pipelines of a template, each with the context that it is evaluated in. -/
def sites (t : Template) : List (HtmlContext × Pipeline) := Node.sitesOf t.nodes

end Template

end Stencil
