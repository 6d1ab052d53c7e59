import Stencil.Value.Basic

/-!
# Pipelines

A statement of a template is a pipeline: commands joined by `|`, the value of each passed on to the
next, with variables in front that take the value of the last.

* `Expr` is an operand, a command is a list of operands, and `Pipeline` is the whole.
* `Pipeline.calledFunction?` recognises the call of a single function.
-/

namespace Stencil

/-- Commands with the variables that take their value. -/
structure PipelineOf (operand : Type) where
  /-- The variables in front, without their dollar signs. -/
  targets : List String := []
  /-- Whether the variables exist already (`=`) or are new (`:=`). -/
  assigns : Bool := false
  commands : List (List operand)

/-- An operand of a command. -/
inductive Expr where
  /-- The current data. -/
  | dot
  /-- A chain of fields of the current data. -/
  | field (names : List String)
  /-- A variable with a chain of fields. -/
  | variable (name : String) (fields : List String)
  /-- A function. -/
  | call (name : String)
  | const (value : Value)
  /-- A pipeline in parentheses with a chain of fields. -/
  | group (pipeline : PipelineOf Expr) (fields : List String)

/-- A command: a function with its arguments, or a single operand. -/
abbrev Command := List Expr

/-- A statement. -/
abbrev Pipeline := PipelineOf Expr

namespace Pipeline

/-- The function, if the pipeline is one call of it without variables. -/
def calledFunction? (p : Pipeline) : Option String :=
  match p.targets, p.commands with
  | [], [.call name :: _] => some name
  | _, _ => none

end Pipeline

/-- A statement `template "name"` with the pipeline that gives its data. -/
structure TemplateCall where
  name : String
  pipeline : Option Pipeline

end Stencil
