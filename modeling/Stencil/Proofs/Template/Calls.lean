import Stencil.Template.Basic

/-!
# The calls of a pipeline

Which functions a pipeline calls, and what its text tells about the first argument of each call. That
argument says which slot a composition call is about.

* `FirstArgument` is what is known: that there is none, that it is a constant, or nothing.
* `Pipeline.calls` lists the calls with it, at any depth.
-/

namespace Stencil

/-- What the text of a call tells about its first argument. -/
inductive FirstArgument where
  | absent
  | const (v : Value)
  | computed

/-- The arguments that a call may get. -/
def FirstArgument.Admits : FirstArgument → List Value → Prop
  | .absent, args => args = []
  | .const v, args => args.head? = some v
  | .computed, _ => True

namespace Expr

/-- The first argument among the operands of a call, after which a value may be piped into it. -/
def firstArgument (piped : Bool) : List Expr → FirstArgument
  | [] => if piped then .computed else .absent
  | .const v :: _ => .const v
  | _ :: _ => .computed

mutual

/-- The calls of an operand. A function that stands for itself gets no arguments. -/
def calls : Expr → List (String × FirstArgument)
  | .call name => [(name, .absent)]
  | .group ⟨_, _, cs⟩ _ => callsOfCommands false cs
  | .dot => []
  | .field _ => []
  | .variable _ _ => []
  | .const _ => []

/-- The calls of some operands. -/
def callsOfOperands : List Expr → List (String × FirstArgument)
  | [] => []
  | x :: xs => calls x ++ callsOfOperands xs

/-- The calls of a command, into which a value may be piped. -/
def callsOfCommand (piped : Bool) : List Expr → List (String × FirstArgument)
  | [] => []
  | .call name :: xs => (name, firstArgument piped xs) :: callsOfOperands xs
  | x :: xs => calls x ++ callsOfOperands xs

/-- The calls of some commands; all but the first get the value of the one before. -/
def callsOfCommands (piped : Bool) : List (List Expr) → List (String × FirstArgument)
  | [] => []
  | c :: cs => callsOfCommand piped c ++ callsOfCommands true cs

end

/-- The calls of a command that starts with no function are those of its operands. -/
theorem callsOfCommand_of_ne {x : Expr} (hx : ∀ name, x ≠ .call name) (piped : Bool)
    (xs : List Expr) : callsOfCommand piped (x :: xs) = calls x ++ callsOfOperands xs := by
  rw [callsOfCommand]
  exact hx

end Expr

/-- The calls of a pipeline with what is known of their first arguments. -/
def Pipeline.calls (p : Pipeline) : List (String × FirstArgument) :=
  Expr.callsOfCommands false p.commands

end Stencil
