import Stencil.Pipeline.Basic
import Stencil.Value.Printer

/-!
# Canonical texts of pipelines

Every pipeline whose constants have literals can be written as a statement: variables in front,
commands with ` | ` between them, operands with a space between them, fields right behind what they
belong to.

* `Value.literal` writes a constant, `Expr.text` an operand and `Pipeline.text` a whole pipeline.
* `Pipeline.isFormed` says which pipelines a statement can denote, given the constants that it may
  hold: `Value.isLiteral` are those that are written exactly, `Value.isConstant` those that are read.
-/

namespace Stencil

/-! ## Literals -/

namespace Value

/-- A character of a string literal. -/
def literalChar (c : Char) : List Char :=
  if c = '"' then ['\\', '"']
  else if c = '\\' then ['\\', '\\']
  else if c = '\n' then ['\\', 'n']
  else [c]

/-- The literal of a text. -/
def textLiteral (s : String) : List Char := '"' :: (s.toList.flatMap literalChar ++ ['"'])

/-- The literal of a constant; other values have none. -/
def literal : Value → List Char
  | .none => "nil".toList
  | .bool b => (boolText b).toList
  | .int n => (toString n).toList
  | .string s _ => textLiteral s
  | _ => []

/-- The constants with a literal. An integer literal holds at most 63 bits before its sign. -/
def isLiteral : Value → Bool
  | .none | .bool _ => true
  | .int n => n.natAbs < 0x8000000000000000
  | .string _ safe => !safe
  | _ => false

/-- The constants of statements: those with a literal, all integers of 64 bits and floating point
numbers. -/
def isConstant : Value → Bool
  | .int n => -0x8000000000000000 ≤ n && n < 0x8000000000000000
  | .float _ => true
  | v => v.isLiteral

end Value

/-! ## Texts -/

namespace Expr

/-- A chain of fields. -/
def fieldsText (names : List String) : List Char := names.flatMap fun name => '.' :: name.toList

/-- The variables in front of a pipeline, with the sign behind them. -/
def targetsText (assigns : Bool) : List String → List Char
  | [] => []
  | names =>
    List.intercalate [',', ' '] (names.map fun name => '$' :: name.toList) ++
      (if assigns then " = " else " := ").toList

mutual

/-- The text of an operand. -/
def text : Expr → List Char
  | .dot => ['.']
  | .field names => fieldsText names
  | .variable name fields => '$' :: (name.toList ++ fieldsText fields)
  | .call name => name.toList
  | .const v => v.literal
  | .group ⟨targets, assigns, cs⟩ fields =>
    '(' :: (targetsText assigns targets ++ (commandsText cs ++ ')' :: fieldsText fields))

/-- The text of a command: its operands with a space between them. -/
def commandText : List Expr → List Char
  | [] => []
  | [x] => text x
  | x :: xs => text x ++ ' ' :: commandText xs

/-- The text of some commands with bars between them. -/
def commandsText : List (List Expr) → List Char
  | [] => []
  | [c] => commandText c
  | c :: cs => commandText c ++ ' ' :: '|' :: ' ' :: commandsText cs

end

end Expr

/-- The text of a pipeline. -/
def Pipeline.text (p : Pipeline) : List Char :=
  Expr.targetsText p.assigns p.targets ++ Expr.commandsText p.commands

/-! ## Form -/

/-- Whether a name is an identifier: ASCII letters, digits and underscores, with no digit in front. -/
def isIdentifier (name : String) : Bool :=
  match name.toList with
  | [] => false
  | c :: s => (c.isAlpha || c = '_') && s.all fun d => d.isAlphanum || d = '_'

namespace Expr

/-- Whether a name is one of the words that denote constants. -/
def isConstantWord (name : String) : Bool := name = "true" || name = "false" || name = "nil"

/-- Whether a name can stand behind a dollar sign; the sign alone is a variable as well. -/
def isVariableName (name : String) : Bool := name = "" || isIdentifier name

/-- Whether the variables in front of a pipeline are at most two, and none is assigned without one. -/
def targetsFormed (assigns : Bool) (targets : List String) : Bool :=
  targets.length ≤ 2 && targets.all isVariableName && (!assigns || !targets.isEmpty)

/-- Whether a command has an operand, and a constant in front is the only one. -/
def commandFormed : List Expr → Bool
  | [] => false
  | .const _ :: _ :: _ => false
  | _ => true

mutual

/-- Whether an operand is well formed, with `constant` constants and at most `room` groups inside one
another. -/
def isFormed (constant : Value → Bool) (room : Nat) : Expr → Bool
  | .dot => true
  | .field names => !names.isEmpty && names.all isIdentifier
  | .variable name fields => isVariableName name && fields.all isIdentifier
  | .call name => isIdentifier name && !isConstantWord name
  | .const v => constant v
  | .group ⟨targets, assigns, cs⟩ fields =>
    0 < room && targetsFormed assigns targets && !cs.isEmpty &&
      commandsFormed constant (room - 1) cs && fields.all isIdentifier

/-- Whether all operands of a command are well formed. -/
def operandsFormed (constant : Value → Bool) (room : Nat) : List Expr → Bool
  | [] => true
  | x :: xs => isFormed constant room x && operandsFormed constant room xs

/-- Whether some commands are well formed. -/
def commandsFormed (constant : Value → Bool) (room : Nat) : List (List Expr) → Bool
  | [] => true
  | c :: cs =>
    commandFormed c && operandsFormed constant room c && commandsFormed constant room cs

end

end Expr

/-- Whether a pipeline is well formed, with `constant` constants and at most `room` groups inside one
another. -/
def Pipeline.isFormed (constant : Value → Bool) (room : Nat) (p : Pipeline) : Bool :=
  Expr.targetsFormed p.assigns p.targets && !p.commands.isEmpty &&
    Expr.commandsFormed constant room p.commands

/-- The text of a pipeline that takes something of everything. -/
example :
    Pipeline.text
      { targets := ["k", "v"]
        commands := [
          [.call "f", .const (.text "a\"b\\c\n"), .variable "" ["A"], .const (.int (-5))],
          [.group { targets := ["x"], assigns := true, commands := [[.field ["B", "C"]]] } ["D"]],
          [.const .none]] } =
      "$k, $v := f \"a\\\"b\\\\c\\n\" $.A -5 | ($x = .B.C).D | nil".toList := by decide

end Stencil
