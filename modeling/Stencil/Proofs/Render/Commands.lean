import Stencil.Proofs.Render.Control
import Stencil.Proofs.Render.Literal

/-!
# What commands do to the state

The commands of a pipeline read the data and the variables of their template and call functions. All
that they do to the state they do by calls.

* `Run.OnlyReads` are the computations that read the scopes and change nothing.
* `Eval.Passing` says that a statement passes from calls to commands; `Passing.commands` is the one
  induction over their operands.
* `Eval.scopes_commands` says that commands leave the scopes alone, whatever they call, and
  `Eval.reads_operands` that operands without composition calls only read.
-/

namespace Stencil

open Render

/-! ## Computations that read -/

namespace Run

variable {α β : Type}

/-- The computation depends on the scopes alone and changes nothing. -/
def OnlyReads (act : Run α) : Prop :=
  ∃ told : Scopes → Except Fault α, ∀ s, act s = Run.attempt (told s.scopes) s

namespace OnlyReads

theorem attempt (r : Except Fault α) : OnlyReads (Run.attempt r) := ⟨fun _ => r, fun _ => rfl⟩

theorem lift (o : Outcome α) : OnlyReads (Run.lift o) := attempt o.raised

/-- From the same scopes there is the same value or the same fault. -/
theorem cases {act : Run α} (h : OnlyReads act) (s : State) :
    (∃ a, ∀ t : State, t.scopes = s.scopes → act t = .ok a t) ∨
      ∃ f : Fault, ∀ t : State, t.scopes = s.scopes → act t = .error f t := by
  obtain ⟨told, htold⟩ := h
  cases hs : told s.scopes with
  | ok a => exact .inl ⟨a, fun t ht => by rw [htold, ht, hs]; rfl⟩
  | error f => exact .inr ⟨f, fun t ht => by rw [htold, ht, hs]; rfl⟩

theorem bind {act : Run α} {k : α → Run β} (h : OnlyReads act) (hk : ∀ a, OnlyReads (k a)) :
    OnlyReads (act >>= k) := by
  obtain ⟨told, htold⟩ := h
  refine ⟨fun ss => told ss >>= fun a => (hk a).choose ss, fun s => ?_⟩
  have hact := htold s
  dsimp only
  cases hs : told s.scopes with
  | ok a =>
    rw [hs] at hact
    rw [bind_ok hact, (hk a).choose_spec]
    rfl
  | error f =>
    rw [hs] at hact
    rw [bind_error hact]
    rfl

end OnlyReads

end Run

/-! ## From calls to commands -/

namespace Eval

open Run

/-- The statement `P` passes through the ways in which commands are put together, and it is true of the
calls of functions whose names have `A`. -/
structure Passing (e : Environment) (run : Runner) (context : HtmlContext) (A : String → Prop)
    (P : (α : Type) → Run α → Prop) : Prop where
  reads {α : Type} {act : Run α} : OnlyReads act → P α act
  bind {α β : Type} {act : Run α} {k : α → Run β} : P α act → (∀ a, P β (k a)) → P β (act >>= k)
  call {name : String} : A name → ∀ args, P Value (call e run context name args)

/-- The calls among some leaves have `A`. -/
def CallsHave (A : String → Prop) (leaves : List Expr) : Prop := ∀ name, .call name ∈ leaves → A name

theorem CallsHave.append {A : String → Prop} {ls ls' : List Expr} (h : CallsHave A (ls ++ ls')) :
    CallsHave A ls ∧ CallsHave A ls' :=
  ⟨fun name hm => h name (List.mem_append_left ls' hm),
    fun name hm => h name (List.mem_append_right ls hm)⟩

namespace Passing

variable {e : Environment} {run : Runner} {context : HtmlContext} {A : String → Prop}
  {P : (α : Type) → Run α → Prop}

mutual

theorem operand (h : Passing e run context A P) :
    ∀ x : Expr, CallsHave A x.leaves → P Value (operand e run context x)
  | .dot, _ => h.reads ⟨fun ss => .ok (Scopes.dot ss), fun _ => rfl⟩
  | .field names, _ => h.reads ⟨fun ss => ((Scopes.dot ss).fields names).raised, fun _ => rfl⟩
  | .variable name fields, _ => by
    refine h.bind (h.reads ⟨fun ss => (Scopes.lookup? name ss).elim
      (.error { cause := .undefinedVariable name }) .ok, fun s => ?_⟩) fun v => h.reads (.lift _)
    rw [lookup, get_bind]
    cases hv : Scopes.lookup? name s.scopes with
    | some v => simp only [hv]; rfl
    | none => simp only [hv]; rfl
  | .call name, hx => h.call (hx name (by simp [Expr.leaves])) []
  | .const v, _ => h.reads (.lift (.ok v))
  | .group ⟨_, _, cs⟩ fields, hx =>
    h.bind (h.commands cs none hx) fun v => h.reads (.lift _)

theorem operands (h : Passing e run context A P) :
    ∀ xs : List Expr, CallsHave A (Expr.leavesOfOperands xs) →
      P (List Value) (operands e run context xs)
  | [], _ => h.reads (.lift (.ok []))
  | x :: xs, hx => by
    rw [Expr.leavesOfOperands] at hx
    exact h.bind (h.operand x hx.append.1) fun v =>
      h.bind (h.operands xs hx.append.2) fun vs => h.reads (.lift (.ok (v :: vs)))

theorem command (h : Passing e run context A P) (last : Option Value) :
    ∀ c : List Expr, CallsHave A (Expr.leavesOfOperands c) →
      P Value (command e run context last c)
  | [], _ => h.reads (.lift (.error .emptyCommand))
  | x :: xs, hx => by
    rw [Expr.leavesOfOperands] at hx
    by_cases hcall : ∃ name, x = .call name
    · obtain ⟨name, rfl⟩ := hcall
      exact h.bind (h.operands xs hx.append.2) fun args =>
        h.call (hx name (by simp [Expr.leaves])) _
    · have hne : ∀ name, x ≠ .call name := fun name hn => hcall ⟨name, hn⟩
      cases xs with
      | nil =>
        rw [command_single hne]
        split
        · exact h.operand x hx.append.1
        · exact h.reads (.lift (.error .argumentToValue))
      | cons y ys =>
        rw [command_many hne]
        exact h.reads (.lift (.error .argumentToValue))

/-- **What is true of calls is true of commands**, by recursion over their operands. -/
theorem commands (h : Passing e run context A P) :
    ∀ (cs : List (List Expr)) (last : Option Value), CallsHave A (Expr.leavesOfCommands cs) →
      P Value (commands e run context last cs)
  | [], last, _ => h.reads (.lift (.ok (last.getD .undefined)))
  | c :: cs, last, hx => by
    rw [Expr.leavesOfCommands] at hx
    exact h.bind (h.command last c hx.append.1) fun v => h.commands cs (some v) hx.append.2

end

end Passing

/-! ## The scopes are left alone -/

section Scopes

variable (e : Environment) (room : Nat) (context : HtmlContext) (scopes : Scopes)

/-- A call leaves the scopes alone, and so does every template that it runs. -/
theorem scopes_compose (c : Composition) (args : List Value) :
    Keeps (·.scopes = scopes) (compose (runner e room) context c args) fun _ => True := by
  by_cases hc : c = .extend
  · subst hc
    exact .seq (.lift fun _ _ => trivial) fun _ => .seq (.modifyState fun _ hs => hs) fun _ =>
      .pure trivial
  · refine .of_final fun s hs => ?_
    rw [((compose_attends e room context hc args).final (.refl s)).scopes, hs]

theorem scopes_call (name : String) (args : List Value) :
    Keeps (·.scopes = scopes) (call e (runner e room) context name args) fun _ => True := by
  unfold call
  split
  · exact scopes_compose e room context scopes _ args
  · split
    · exact .attempt fun _ _ => trivial
    · exact .fail _

theorem passing_scopes : Passing e (runner e room) context (fun _ => True)
    fun _ act => Keeps (·.scopes = scopes) act fun _ => True where
  reads := fun ⟨told, htold⟩ => .of_final fun s hs => by
    cases ho : told s.scopes with
    | ok a => rw [final_of_ok ((htold s).trans (by rw [ho]; rfl))]; exact hs
    | error f => rw [final_of_error ((htold s).trans (by rw [ho]; rfl))]; exact hs
  bind h hk := .seq h hk
  call _ args := scopes_call e room context scopes _ args

/-- **Commands leave the scopes alone**, with success or with a fault. -/
theorem scopes_commands (last : Option Value) (cs : List (List Expr)) :
    Keeps (·.scopes = scopes) (commands e (runner e room) context last cs) fun _ => True :=
  (passing_scopes e room context scopes).commands cs last fun _ _ => trivial

end Scopes

/-! ## Operands that only read -/

section Reads

variable (e : Environment) (run : Runner) (context : HtmlContext)

/-- The name of a function of the environment, which no composition call has. -/
def IsPlain (name : String) : Prop := Composition.ofName? name = none

theorem reads_call {name : String} (h : IsPlain name) (args : List Value) :
    OnlyReads (call e run context name args) := by
  unfold call
  rw [h]
  dsimp only
  split
  · exact .attempt _
  · exact .lift (.error _)

theorem passing_reads : Passing e run context IsPlain fun _ act => OnlyReads act where
  reads h := h
  bind h hk := h.bind hk
  call h args := reads_call e run context h args

/-- **Operands without composition calls only read.** -/
theorem reads_operands {xs : List Expr} (h : CallsHave IsPlain (Expr.leavesOfOperands xs)) :
    OnlyReads (operands e run context xs) :=
  (passing_reads e run context).operands xs h

end Reads

end Eval

end Stencil
