import Stencil.Proofs.Render.Commands

/-!
# Pipes

To pipe a value into a call is to pass the earlier commands to it, in parentheses, as its last argument.
The two are not evaluated in the same order: behind a pipe the arguments come after the earlier commands,
and in parentheses the commands come after the other arguments.

* `Eval.operands_append` and `Eval.commands_append` take the two forms apart.
* `Eval.pipeline_piped` compares them.
-/

namespace Stencil.Eval

open Render Run

variable {e : Environment} {run : Runner} {context : HtmlContext}

/-! ## Commands and operands in parts -/

theorem operands_append (xs ys : List Expr) : operands e run context (xs ++ ys) = (do
    let vs ← operands e run context xs
    let ws ← operands e run context ys
    return vs ++ ws) := by
  induction xs with
  | nil =>
    rw [List.nil_append, operands, pure_bind]
    exact (bind_pure _).symm
  | cons x xs ih => simp only [List.cons_append, operands, ih, bind_assoc, pure_bind]

/-- A pipe goes on with the value of the commands before it. -/
theorem commands_append {cs : List (List Expr)} (hcs : cs ≠ []) (ds : List (List Expr)) :
    ∀ last : Option Value, commands e run context last (cs ++ ds) = (do
      let v ← commands e run context last cs
      commands e run context (some v) ds) := by
  match cs, hcs with
  | [c], _ =>
    intro last
    simp only [List.cons_append, List.nil_append, commands, bind_assoc, pure_bind, Option.getD_some]
  | c :: c' :: cs, _ =>
    intro last
    have ih := commands_append (List.cons_ne_nil c' cs) ds
    rw [List.cons_append, commands, commands, bind_assoc]
    exact congrArg _ (funext fun v => ih (some v))

/-! ## The two forms of a call -/

/-- A call into which some commands are piped. -/
def piped (cs : List (List Expr)) (f : String) (args : List Expr) : List (List Expr) :=
  cs ++ [.call f :: args]

/-- A call with some commands in parentheses as its last argument. -/
def nested (cs : List (List Expr)) (f : String) (args : List Expr) : List (List Expr) :=
  [.call f :: (args ++ [.group { commands := cs } []])]

theorem commands_piped {cs : List (List Expr)} (hcs : cs ≠ []) (f : String) (args : List Expr) :
    commands e run context none (piped cs f args) = (do
      let v ← commands e run context none cs
      let vs ← operands e run context args
      call e run context f (vs ++ [v])) := by
  rw [piped, commands_append hcs]
  simp only [commands, command, Option.toList_some, Option.getD_some, bind_pure]

theorem commands_nested (cs : List (List Expr)) (f : String) (args : List Expr) :
    commands e run context none (nested cs f args) = (do
      let vs ← operands e run context args
      let v ← commands e run context none cs
      call e run context f (vs ++ [v])) := by
  simp only [nested, commands, command, operands_append, operands, operand, bind_assoc, pure_bind,
    Option.toList_none, List.append_nil, Option.getD_some, bind_pure, Value.fields]
  rfl

section Compared

variable {room : Nat} {cs : List (List Expr)} {args : List Expr} {s : State}

/-- Arguments that have values have the same ones behind the earlier commands. -/
theorem commands_piped_eq_nested (hcs : cs ≠ []) (f : String) {vs : List Value}
    (hargs : ∀ t : State, t.scopes = s.scopes →
      operands e (runner e room) context args t = .ok vs t) :
    commands e (runner e room) context none (piped cs f args) s =
      commands e (runner e room) context none (nested cs f args) s := by
  rw [commands_piped hcs, commands_nested, bind_ok (hargs s rfl)]
  -- the earlier commands may change everything but the scopes, and the arguments read nothing else
  cases hrun : commands e (runner e room) context none cs s with
  | ok v u =>
    have hscopes : u.scopes = s.scopes :=
      ((scopes_commands e room context s.scopes none cs).ok rfl hrun).1
    rw [bind_ok hrun, bind_ok hrun, bind_ok (hargs u hscopes)]
  | error fault u => rw [bind_error hrun, bind_error hrun]

/-- Arguments that fail do so in both forms, unless the earlier commands have failed already. -/
theorem commands_piped_error (hcs : cs ≠ []) (f : String) {g : Fault}
    (hargs : ∀ t : State, t.scopes = s.scopes →
      operands e (runner e room) context args t = .error g t) :
    (∃ fault u, commands e (runner e room) context none (piped cs f args) s = .error fault u) ∧
      commands e (runner e room) context none (nested cs f args) s = .error g s := by
  rw [commands_piped hcs, commands_nested, bind_error (hargs s rfl)]
  refine ⟨?_, rfl⟩
  cases hrun : commands e (runner e room) context none cs s with
  | ok v u =>
    have hscopes : u.scopes = s.scopes :=
      ((scopes_commands e room context s.scopes none cs).ok rfl hrun).1
    rw [bind_ok hrun, bind_error (hargs u hscopes)]
    exact ⟨_, u, rfl⟩
  | error fault u =>
    rw [bind_error hrun]
    exact ⟨fault, u, rfl⟩

end Compared

/-- **To pipe into a call is to pass the commands in parentheses as its last argument.** The call is of
any name; its other arguments call no composition. One form succeeds as the other one does, with the
same value in the same state, and fails if the other one does. Where the other arguments have values
the forms are the same with their faults as well. -/
theorem pipeline_piped (e : Environment) (room : Nat) (context : HtmlContext)
    {cs : List (List Expr)} (hcs : cs ≠ []) (f : String) {args : List Expr}
    (hargs : CallsHave IsPlain (Expr.leavesOfOperands args)) (targets : List String)
    (assigns : Bool) (s : State) :
    let pipe := pipeline e (runner e room) context
      { targets, assigns, commands := piped cs f args } s
    let nest := pipeline e (runner e room) context
      { targets, assigns, commands := nested cs f args } s
    (∀ v u, pipe = .ok v u ↔ nest = .ok v u) ∧
    ((∃ fault u, pipe = .error fault u) ↔ ∃ fault u, nest = .error fault u) ∧
    ((∃ vs u, operands e (runner e room) context args s = .ok vs u) → pipe = nest) := by
  intro pipe nest
  rcases (reads_operands e (runner e room) context hargs).cases s with ⟨vs, hvs⟩ | ⟨g, hg⟩
  · have heq : pipe = nest := by
      change (commands _ _ _ _ _ >>= _) s = (commands _ _ _ _ _ >>= _) s
      have hcommands := commands_piped_eq_nested hcs f hvs
      cases hrun : commands e (runner e room) context none (nested cs f args) s with
      | ok v u => rw [bind_ok hrun, bind_ok (hcommands.trans hrun)]
      | error fault u => rw [bind_error hrun, bind_error (hcommands.trans hrun)]
    exact ⟨fun v u => by rw [heq], by rw [heq], fun _ => heq⟩
  · obtain ⟨⟨fault, u, hpipe⟩, hnest⟩ := commands_piped_error hcs f hg
    have hpipe' : pipe = .error fault u := bind_error hpipe _
    have hnest' : nest = .error g s := bind_error hnest _
    refine ⟨fun v u => ?_, ⟨fun _ => ⟨_, s, hnest'⟩, fun _ => ⟨fault, u, hpipe'⟩⟩,
      fun ⟨vs, u, hvs⟩ => ?_⟩
    · rw [hpipe', hnest']
      exact ⟨nofun, nofun⟩
    · rw [hg s rfl] at hvs
      exact nomatch hvs

/-- A page whose slot has a template. -/
def sidePage : Environment where
  templates := [
    ("card", { name := "card", nodes := [.text "c", .action 1 .body { commands := [[.dot]] }] })]

/-- The data is piped into `yield`, or passed on in parentheses behind the slot. -/
theorem pipeline_piped_sidePage :
    let s : State := { context := { yields := [("side", "card")] }, scopes := Scopes.start (.text "u") }
    let pipe := pipeline sidePage (runner sidePage 1) .body
      { commands := piped [[.dot]] "yield" [.const (.text "side")] } s
    let nest := pipeline sidePage (runner sidePage 1) .body
      { commands := nested [[.dot]] "yield" [.const (.text "side")] } s
    CallsHave IsPlain (Expr.leavesOfOperands [.const (.text "side")]) ∧ pipe = nest ∧
      ∃ u, pipe = .ok (.safeText "cu") u ∧ nest = .ok (.safeText "cu") u := by
  intro s pipe nest
  have hargs : CallsHave IsPlain (Expr.leavesOfOperands [.const (.text "side")]) := by
    simp [CallsHave, Expr.leavesOfOperands, Expr.leaves]
  have h := pipeline_piped sidePage 1 .body (List.cons_ne_nil [.dot] []) "yield" hargs [] false s
  exact ⟨hargs, h.2.2 ⟨_, s, rfl⟩, _, rfl, (h.1 _ _).1 rfl⟩

end Stencil.Eval
