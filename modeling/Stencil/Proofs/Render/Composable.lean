import Stencil.Proofs.Render.History
import Stencil.Proofs.Render.Path
import Stencil.Proofs.Render.Places

/-!
# Statements about histories, put together

The nodes of a template are put together from a few kinds of computations. What is true of these kinds
with their moments is true of nodes, whatever the statement says.

* `Run.Local` are the computations that change nothing but variables and the log.
* `Traced.Evaluable e run P` says that `P` passes through the ways in which computations are put together
  inside of a node, and that it is true of the templates that `run` runs. `Traced.Evaluable.pipeline`
  concludes that `P` is true of pipelines, by one induction over their operands for all statements.
* `Traced.Composable e run t P` says that `P` passes through the nodes of a template as well, and
  `Traced.Composable.nodes` that it is true of these, by one induction over the template.
-/

namespace Stencil

open Render

/-- The computation changes nothing but variables and the log. -/
def Run.Local {α : Type} (act : Run α) : Prop :=
  ∀ s, ∃ scopes events, act.final s = { s with scopes, events }

namespace Run

variable {α β : Type}

theorem final_bind {act : Run α} {k : α → Run β} (s : State) :
    (act >>= k).final s = match act s with
      | .ok a t => (k a).final t
      | .error _ t => t := by
  change Run.final (EStateM.bind act k) s = _
  unfold final EStateM.bind
  cases act s <;> rfl

theorem final_located (template : String) (line : Nat) (act : Run α) (s : State) :
    (located template line act).final s = act.final s := by
  unfold final located
  cases act s <;> rfl

theorem final_guarded (enter : State → State) (leave : State → State → State) (act : Run α)
    (s : State) : (guarded enter leave act).final s = leave s (act.final (enter s)) := by
  unfold final guarded
  cases act (enter s) <;> rfl

namespace Local

theorem pure (a : α) : Local (Pure.pure a : Run α) := fun s => ⟨s.scopes, s.events, rfl⟩

theorem fail (c : Cause) : Local (Run.fail c : Run α) := fun s => ⟨s.scopes, s.events, rfl⟩

theorem attempt (r : Except Fault α) : Local (Run.attempt r) := by
  cases r with
  | ok a => exact pure a
  | error f => exact fun s => ⟨s.scopes, s.events, rfl⟩

theorem lift (o : Outcome α) : Local (Run.lift o) := attempt o.raised

theorem get : Local (MonadState.get : Run State) := fun s => ⟨s.scopes, s.events, rfl⟩

theorem emit (ev : Event) : Local (Run.emit ev) := fun s => ⟨s.scopes, ev :: s.events, rfl⟩

theorem bind {act : Run α} {k : α → Run β} (h : Local act) (hk : ∀ a, Local (k a)) :
    Local (act >>= k) := by
  intro s
  obtain ⟨scopes, events, hact⟩ := h s
  rw [final_bind]
  cases he : act s with
  | ok a t =>
    obtain ⟨scopes', events', hk⟩ := hk a t
    rw [final_of_ok he] at hact
    exact ⟨scopes', events', hk.trans (by rw [hact])⟩
  | error f t =>
    rw [final_of_error he] at hact
    exact ⟨scopes, events, hact⟩

theorem getState {k : State → Run β} (h : ∀ s, Local (k s)) :
    Local ((MonadState.get : Run State) >>= k) := bind get h

end Local

end Run

namespace Eval

open Run

theorem local_lookup (name : String) : Local (lookup name) := by
  refine .getState fun s => ?_
  split
  · exact .pure _
  · exact .fail _

theorem local_declare (name : String) (v : Value) : Local (declare name v) :=
  fun s => ⟨Scopes.declare name v s.scopes, s.events, rfl⟩

theorem local_assign (name : String) (v : Value) : Local (assign name v) := by
  intro s
  unfold Run.final assign
  rw [get_bind]
  cases Scopes.assign? name v s.scopes with
  | some scopes => exact ⟨scopes, s.events, rfl⟩
  | none => exact ⟨s.scopes, s.events, rfl⟩

theorem local_bind (assigns : Bool) (v : Value) (names : List String) :
    Local (Eval.bind assigns v names) := by
  induction names with
  | nil => exact .pure _
  | cons name names ih =>
    cases assigns with
    | false => exact .bind (local_declare name v) fun _ => ih
    | true => exact .bind (local_assign name v) fun _ => ih

theorem local_bindPair (key item : Value) (targets : List String) :
    Local (bindPair key item targets) := by
  match targets with
  | [] => exact .pure _
  | [x] => exact local_declare x item
  | [k, x] => exact .bind (local_declare k key) fun _ => local_declare x item
  | _ :: _ :: _ :: _ => exact .pure _

end Eval

namespace Traced

open Run

variable {μ α β : Type} {s : State}

theorem final_bind {act : Traced μ α} {k : α → Traced μ β} :
    (act >>= k).run.final s = match act.run s with
      | .ok a t => (k a).run.final t
      | .error _ t => t := by
  rw [run_bind, Run.final_bind]

theorem trail_get (k : State → Traced Moment β) (s : State) :
    ((quiet get >>= k) s).2 = (k s s).2 := rfl

theorem trail_emit (ev : Event) (k : PUnit → Traced Moment β) (s : State) :
    ((quiet (Run.emit ev) >>= k) s).2 = (k ⟨⟩ { s with events := ev :: s.events }).2 := rfl

theorem trail_bind (act : Traced μ α) (k : α → Traced μ β) (s : State) :
    ((act >>= k) s).2 = (act s).2 ++ match act.run s with
      | .ok a t => (k a t).2
      | .error _ _ => [] := by
  change (andThen act k s).2 = _
  unfold andThen run
  rcases act s with ⟨⟨a, t⟩ | ⟨f, t⟩, trail⟩
  · rfl
  · exact (List.append_nil trail).symm
end Traced

/-- The evaluator closes a block as the state does, and records it in the log. -/
theorem History.final_closeBlock (s : State) :
    ∃ events, Eval.closeBlock.final s = { s.closed with events } := by
  rcases s with ⟨context, main, inLayout, parent, depth, scopes, ⟨root, discards, frames⟩, events⟩
  unfold Run.final Eval.closeBlock
  rw [Run.get_bind]
  match frames with
  | [] => exact ⟨_, rfl⟩
  | .discard :: frames => exact ⟨_, rfl⟩
  | .through :: frames => exact ⟨_, rfl⟩
  | .capture slot kind content :: frames =>
    dsimp only [Output.pop, State.closed]
    by_cases hclaimed : context.isClaimed slot = true
    · rw [if_pos hclaimed, if_pos hclaimed]
      exact ⟨_, rfl⟩
    · rw [if_neg hclaimed, if_neg hclaimed]
      exact ⟨_, rfl⟩

/-! ## What passes through -/

/-- The statement passes through the ways in which computations are put together inside of a node, where
`run` itself has it. -/
structure Traced.Evaluable (e : Environment) (run : Teller)
    (P : (α : Type) → Traced Moment α → Prop) : Prop where
  ran (name : String) (dot : Value) : P String (run name dot)
  quiet {α : Type} {act : Run α} : act.Local → act.Bare e → P α (Traced.quiet act)
  bind {α β : Type} {act : Traced Moment α} {k : α → Traced Moment β} : P α act → (∀ a, P β (k a)) →
    P β (act >>= k)
  noted {d : Deed} {act : Run PUnit} : d.isSingle = true → d ≠ .takes →
    (∀ s, ∃ scopes events, act.final s = { d.apply s with scopes, events }) → act.Bare e →
    P PUnit (History.note d act)
  inScope {α : Type} {act : Traced Moment α} (enter : Scopes → Scopes) : P α act →
    P α (Traced.inScope enter act)

/-- The statement passes through the ways in which computations are put together to run nodes of the
template `t` with `run`, where `run` itself has it. -/
structure Traced.Composable (e : Environment) (run : Teller) (t : Template)
    (P : (α : Type) → Traced Moment α → Prop) : Prop extends Evaluable e run P where
  located {α : Type} {act : Traced Moment α} (template : String) (line : Nat) : P α act →
    P α (Traced.located template line act)
  stretch {act : Traced Moment PUnit} (n : Node) :
    History.node e run t n = History.within (.node n) act → P PUnit act →
    P PUnit (History.within (.node n) act)

namespace Traced.Evaluable

open Run History

variable {e : Environment} {run : Teller} {context : HtmlContext}
  {P : (α : Type) → Traced Moment α → Prop} {α β : Type}

section

variable (h : Evaluable e run P)

include h

theorem pure (a : α) : P α (Pure.pure a) := h.quiet (.pure a) (.pure a)

theorem fail (c : Cause) : P α (Traced.quiet (Run.fail c)) := h.quiet (.fail c) (.fail c)

theorem lift (o : Outcome α) : P α (Traced.quiet (Run.lift o)) := h.quiet (.lift o) (.lift o)

theorem emit (ev : Event) : P PUnit (Traced.quiet (Run.emit ev)) := h.quiet (.emit ev) (.modify _)

theorem getState {k : State → Traced Moment β} (hk : ∀ s, P β (k s)) :
    P β (Traced.quiet (MonadState.get : Run State) >>= k) := h.bind (h.quiet .get .get) hk

/-- A deed whose computation changes the state exactly as the deed says. -/
theorem deed {d : Deed} (hd : d.isSingle = true) (htakes : d ≠ .takes) :
    P PUnit (History.note d (modify d.apply)) :=
  h.noted hd htakes (fun _ => ⟨_, _, rfl⟩) (.modify _)

theorem write (text : String) : P PUnit (History.note (.writes text) (Run.write text)) :=
  h.deed (d := .writes text) rfl (fun hd => nomatch hd)

/-! ## Loops -/

theorem passes (targets : List String) {body : Traced Moment PUnit} (hbody : P PUnit body)
    (ps : List (Value × Value)) : P PUnit (Traced.passes targets body ps) := by
  induction ps with
  | nil => exact h.pure _
  | cons p ps ih =>
    refine h.bind (h.inScope _ (h.bind (h.quiet ?_ ?_) fun _ => hbody)) fun _ => ih
    · exact Eval.local_bindPair p.1 p.2 targets
    · exact Eval.bare_bindPair p.1 p.2 targets

theorem loop (targets : List String) {body otherwise : Traced Moment PUnit} (hbody : P PUnit body)
    (hother : P PUnit otherwise) (ps : Value.Pairs) :
    P PUnit (Traced.loop targets body otherwise ps) := by
  rw [loop_eq]
  split
  · exact hother
  · exact h.passes targets hbody ps.toList

/-! ## Calls -/

theorem capture (slot : String) (context : HtmlContext) :
    P PUnit (History.note (.captures slot context) (Eval.capture slot context)) :=
  h.deed (d := .captures slot context) rfl (fun hd => nomatch hd)

theorem closeBlock : P PUnit (History.note .closes Eval.closeBlock) := by
  refine h.noted rfl (fun hd => nomatch hd) (fun s => ?_) Eval.bare_closeBlock
  obtain ⟨events, he⟩ := final_closeBlock s
  exact ⟨_, events, he⟩

theorem ranTemplate (template : String) (dot : Value) :
    P Value (History.ranTemplate run template dot) :=
  h.bind (h.ran template dot) fun _ => h.pure _

theorem yieldMain (data : Option Value) : P Value (History.yieldMain run data) := by
  refine h.getState fun s => ?_
  split
  · exact h.pure _
  · split
    · exact h.fail _
    · exact h.ranTemplate _ _

theorem yieldSlot (slot : String) (data : Option Value) (fallback : Option String) :
    P Value (History.yieldSlot run context slot data fallback) := by
  refine h.getState fun s => ?_
  dsimp only
  split
  · exact h.bind (h.emit _) fun _ => h.ranTemplate _ _
  · exact h.bind (h.emit _) fun _ => h.bind (h.lift _) fun _ => h.pure _
  · exact h.bind (h.emit _) fun _ => h.ranTemplate _ _
  · exact h.pure _

theorem yieldContent (args : List Value) : P Value (History.yieldContent run context args) := by
  unfold History.yieldContent
  split
  · exact h.bind (h.lift _) fun _ => h.yieldSlot _ _ _
  · exact h.bind (h.lift _) fun _ => h.yieldMain _

theorem openBlock (slot : String) : P PUnit (History.openBlock run context slot) := by
  refine h.getState fun s => ?_
  have hdrop : P PUnit (History.note (.drops slot) (Eval.pushFrame .discard)) :=
    h.deed (d := .drops slot) rfl (fun hd => nomatch hd)
  split
  · exact h.capture slot context
  · split
    · refine h.bind (h.emit _) fun _ => h.bind (h.ran _ _) fun text => ?_
      exact h.bind (h.write text) fun _ => hdrop
    · refine h.bind (h.emit _) fun _ => h.bind (h.lift _) fun text => ?_
      exact h.bind (h.write text) fun _ => hdrop
    · exact h.deed (d := .passes slot) rfl (fun hd => nomatch hd)

theorem compose (c : Composition) (args : List Value) :
    P Value (History.compose run context c args) := by
  cases c with
  | yield => exact h.yieldContent args
  | contentFor =>
    unfold History.compose
    dsimp only
    split
    · next slot _ template _ =>
      have hmaps := h.deed (d := .maps slot template) rfl (fun hd => nomatch hd)
      exact h.bind (h.emit _) fun _ => h.bind hmaps fun _ => h.pure _
    · exact h.fail _
  | block => exact h.bind (h.lift _) fun slot => h.bind (h.openBlock slot) fun _ => h.pure _
  | defineBlock => exact h.bind (h.lift _) fun slot => h.bind (h.capture slot _) fun _ => h.pure _
  | endBlock => exact h.bind h.closeBlock fun _ => h.pure _
  | extend =>
    refine h.bind (h.lift _) fun template => h.bind ?_ fun _ => h.pure _
    exact h.deed (d := .inherits template) rfl (fun hd => nomatch hd)
  | exec => exact h.bind (h.lift _) fun _ => h.getState fun _ => h.ranTemplate _ _
  | rootDot => exact h.getState fun _ => h.pure _
  | fallback => exact h.bind (h.lift _) fun _ => h.pure _

theorem call (context : HtmlContext) (name : String) (args : List Value) :
    P Value (History.call e run context name args) := by
  unfold History.call
  split
  · exact h.compose _ args
  · split
    · next f hf => exact h.quiet (.attempt _) (.attempt hf args)
    · exact h.fail _

end

/-! ## Pipelines -/

mutual

theorem operand (h : Evaluable e run P) (context : HtmlContext) :
    ∀ x : Expr, P Value (History.operand e run context x)
  | .dot => by
    rw [History.operand]
    exact h.quiet (.getState fun _ => .pure _) (.getState fun _ => .pure _)
  | .field names => by
    rw [History.operand]
    exact h.quiet (.getState fun _ => .lift _) (.getState fun _ => .lift _)
  | .variable name fields => by
    rw [History.operand]
    exact h.quiet (.bind (Eval.local_lookup name) fun _ => .lift _)
      (.bind (Eval.bare_lookup name) fun _ => .lift _)
  | .const v => by
    rw [History.operand]
    exact h.pure v
  | .call name => by
    rw [History.operand]
    exact h.call context name []
  | .group ⟨_, _, cs⟩ fields => by
    rw [History.operand]
    exact h.bind (h.commands context none cs) fun _ => h.lift _

theorem operands (h : Evaluable e run P) (context : HtmlContext) :
    ∀ xs : List Expr, P (List Value) (History.operands e run context xs)
  | [] => by
    rw [History.operands]
    exact h.pure _
  | x :: xs => by
    rw [History.operands]
    exact h.bind (h.operand context x) fun _ => h.bind (h.operands context xs) fun _ => h.pure _

theorem command (h : Evaluable e run P) (context : HtmlContext) (last : Option Value) :
    ∀ c : List Expr, P Value (History.command e run context last c)
  | [] => by
    rw [History.command]
    exact h.fail _
  | x :: xs => by
    by_cases hcall : ∃ name, x = .call name
    · obtain ⟨name, rfl⟩ := hcall
      rw [History.command]
      exact h.bind (h.operands context xs) fun args => h.call context name _
    · have hx : ∀ name, x ≠ .call name := fun name hn => hcall ⟨name, hn⟩
      cases xs with
      | nil =>
        rw [command_single e run context hx]
        split
        · exact h.operand context x
        · exact h.fail _
      | cons y ys =>
        rw [command_many e run context hx]
        exact h.fail _

theorem commands (h : Evaluable e run P) (context : HtmlContext) (last : Option Value) :
    ∀ cs : List (List Expr), P Value (History.commands e run context last cs)
  | [] => by
    rw [History.commands]
    exact h.pure _
  | c :: cs => by
    rw [History.commands]
    exact h.bind (h.command context last c) fun v => h.commands context (some v) cs

end

/-- **What passes through is true of pipelines.** -/
theorem pipeline (h : Evaluable e run P) (context : HtmlContext) (p : Pipeline) :
    P Value (History.pipeline e run context p) := by
  refine h.bind (h.commands context none p.commands) fun v => h.bind ?_ fun _ => h.pure _
  exact h.quiet (Eval.local_bind p.assigns v p.targets) (Eval.bare_bind p.assigns v p.targets)

end Traced.Evaluable

/-! ## Nodes -/

namespace Traced.Composable

variable {e : Environment} {run : Teller} {t : Template} {P : (α : Type) → Traced Moment α → Prop}

/-- The subject of a branch, and what follows from its value. -/
theorem branch (h : Composable e run t P) (line : Nat) (p : Pipeline)
    {k : Value → Traced Moment PUnit} (hk : ∀ v, P PUnit (k v)) :
    P PUnit (Traced.inScope Scopes.pushSame do
      let v ← Traced.located t.name line (History.pipeline e run .body p)
      k v) :=
  h.inScope _ (h.bind (h.located _ _ (h.pipeline .body p)) hk)

mutual

theorem node (h : Composable e run t P) :
    ∀ n : Node, P PUnit (History.node e run t n)
  | .text s => by
    have heq := History.node.eq_1 e run t s
    rw [heq]
    exact h.stretch _ heq (h.write s)
  | .action line context p => by
    have heq := History.node.eq_2 e run t line context p
    rw [heq]
    refine h.stretch _ heq (h.bind (h.located _ _ (h.pipeline context p)) fun v => ?_)
    split
    · exact h.write _
    · exact h.pure _
  | .cond line negated p body otherwise => by
    have heq := History.node.eq_3 e run t line negated p body otherwise
    rw [heq]
    refine h.stretch _ heq (h.branch line p fun v => ?_)
    split
    · exact h.inScope _ (h.nodes body)
    · exact h.inScope _ (h.nodes otherwise)
  | .range line p body otherwise => by
    have heq := History.node.eq_4 e run t line p body otherwise
    rw [heq]
    refine h.stretch _ heq (h.located _ _ (h.inScope _ (h.bind (h.commands .body none p.commands)
      fun v => h.bind (h.lift _) fun ps => ?_)))
    exact h.loop p.targets (h.nodes body) (h.inScope _ (h.nodes otherwise)) ps
  | .scope line p body otherwise => by
    have heq := History.node.eq_5 e run t line p body otherwise
    rw [heq]
    refine h.stretch _ heq (h.branch line p fun v => ?_)
    split
    · exact h.inScope _ (h.nodes body)
    · exact h.inScope _ (h.nodes otherwise)
  | .template line name p => by
    have heq := History.node.eq_6 e run t line name p
    rw [heq]
    have hrun (dot : Value) : P PUnit (do
        let text ← Traced.located t.name line (run name dot)
        History.note (.writes text) (Run.write text)) :=
      h.bind (h.located _ _ (h.ran name dot)) h.write
    refine h.stretch _ heq ?_
    cases p with
    | none => exact h.bind (h.pure _) hrun
    | some p => exact h.bind (h.located _ _ (h.pipeline .body p)) hrun

/-- **What passes through is true of nodes.** -/
theorem nodes (h : Composable e run t P) :
    ∀ ns : List Node, P PUnit (History.nodes e run t ns)
  | [] => by
    rw [History.nodes]
    exact h.pure _
  | n :: ns => by
    rw [History.nodes]
    exact h.bind (h.node n) fun _ => h.nodes ns

end

end Traced.Composable

end Stencil
