import Stencil.Proofs.Render.Evaluation
import Stencil.Proofs.Template.Calls
import Stencil.Render.Basic

/-!
# Computations that do alike

Two renderings may differ in a part of the state that nothing looks at. They are compared step by
step: from states that are related they give the same values, fail with the same faults and end in
states that are related.

* `Run.Alike R act act'` is that statement; the lemmas on it follow the ways in which computations are
  put together, as those of `Run.Keeps` do.
* `Run.Congruence R` says what a relation has to say about the running template, and
  `Run.CallCongruence R` what it has to say about the context as well. For chains of templates
  `Run.ChainCongruence R` is enough.
* `Eval.alike_nodes` passes the statement from the calls of pipelines to nodes, and `Eval.alike_call`
  from runners to calls.
* `Render.alike_execute` and `Render.alike_chain` pass it on to templates and to chains of them, where
  a template may have a relation of its own, as `Run.Nested` says.
-/

namespace Stencil

open Render

namespace Run

variable {α β : Type} {R : State → State → Prop}

/-- Two results with the same value or the same fault, and with related states. -/
inductive SameEnd (R : State → State → Prop) :
    EStateM.Result Fault State α → EStateM.Result Fault State α → Prop
  | ok {a : α} {s s' : State} (h : R s s') : SameEnd R (.ok a s) (.ok a s')
  | error {f : Fault} {s s' : State} (h : R s s') : SameEnd R (.error f s) (.error f s')

theorem SameEnd.cases {r r' : EStateM.Result Fault State α} (h : SameEnd R r r') :
    (∃ a s s', r = .ok a s ∧ r' = .ok a s' ∧ R s s') ∨
      ∃ f s s', r = .error f s ∧ r' = .error f s' ∧ R s s' := by
  cases h with
  | ok h => exact .inl ⟨_, _, _, rfl, rfl, h⟩
  | error h => exact .inr ⟨_, _, _, rfl, rfl, h⟩

/-- From related states the computations give the same value or fail alike, and they end in related
states. -/
def Alike (R : State → State → Prop) (act act' : Run α) : Prop :=
  ∀ s s', R s s' → SameEnd R (act s) (act' s')

namespace Alike

/-! ## One computation after the other -/

theorem pure (a : α) : Alike R (Pure.pure a : Run α) (Pure.pure a) := fun _ _ hs => .ok hs

theorem fail (c : Cause) : Alike R (Run.fail c : Run α) (Run.fail c) := fun _ _ hs => .error hs

theorem attempt (r : Except Fault α) : Alike R (Run.attempt r) (Run.attempt r) := by
  cases r with
  | ok a => exact pure a
  | error f => exact fun _ _ hs => .error hs

theorem lift (o : Outcome α) : Alike R (Run.lift o) (Run.lift o) := attempt o.raised

/-- One computation after another, which may count on what is known of the value. -/
theorem bindOf {Q : α → Prop} {act act' : Run α} {k k' : α → Run β} (h : Alike R act act')
    (hq : Keeps (fun _ => True) act Q) (hk : ∀ a, Q a → Alike R (k a) (k' a)) :
    Alike R (act >>= k) (act' >>= k') := by
  intro s s' hs
  have hact := h s s' hs
  have hvalue : ∀ a t, act s = .ok a t → Q a := fun a t he => (hq.ok trivial he).2
  change SameEnd R (EStateM.bind act k s) (EStateM.bind act' k' s')
  unfold EStateM.bind
  generalize act s = r at hact hvalue ⊢
  generalize act' s' = r' at hact ⊢
  cases hact with
  | ok ht => exact hk _ (hvalue _ _ rfl) _ _ ht
  | error ht => exact .error ht

theorem bind {act act' : Run α} {k k' : α → Run β} (h : Alike R act act')
    (hk : ∀ a, Alike R (k a) (k' a)) : Alike R (act >>= k) (act' >>= k') :=
  h.bindOf (Keeps.any act) fun a _ => hk a

/-! ## The state -/

theorem getState {k k' : State → Run β} (h : ∀ s s', R s s' → Alike R (k s) (k' s')) :
    Alike R ((MonadState.get : Run State) >>= k) ((MonadState.get : Run State) >>= k') :=
  fun s s' hs => h s s' hs s s' hs

theorem setState {t t' : State} (h : R t t') :
    Alike R (MonadStateOf.set t : Run PUnit) (MonadStateOf.set t') :=
  fun _ _ _ => .ok h

theorem modifyState {f f' : State → State} (h : ∀ s s', R s s' → R (f s) (f' s')) :
    Alike R (modify f : Run PUnit) (modify f') :=
  fun s s' hs => .ok (h s s' hs)

/-! ## Places and scopes -/

theorem located {act act' : Run α} (template : String) (line : Nat) (h : Alike R act act') :
    Alike R (Run.located template line act) (Run.located template line act') := by
  intro s s' hs
  have hact := h s s' hs
  unfold Run.located
  generalize act s = r at hact ⊢
  generalize act' s' = r' at hact ⊢
  cases hact with
  | ok ht => exact .ok ht
  | error ht => exact .error ht

/-- The states inside may be related in another way. -/
theorem guarded {R' : State → State → Prop} {enter : State → State}
    {leave : State → State → State} {act act' : Run α}
    (henter : ∀ s s', R s s' → R' (enter s) (enter s'))
    (hleave : ∀ s s' t t', R s s' → R' t t' → R (leave s t) (leave s' t')) (h : Alike R' act act') :
    Alike R (Run.guarded enter leave act) (Run.guarded enter leave act') := by
  intro s s' hs
  have hact := h _ _ (henter s s' hs)
  unfold Run.guarded
  generalize act (enter s) = r at hact ⊢
  generalize act' (enter s') = r' at hact ⊢
  cases hact with
  | ok ht => exact .ok (hleave s s' _ _ hs ht)
  | error ht => exact .error (hleave s s' _ _ hs ht)

end Alike

/-! ## Relations that go along with a rendering -/

/-- Related states extend the same template, and stay related when that changes on both sides. -/
structure ChainCongruence (R : State → State → Prop) : Prop where
  parent {s s' : State} : R s s' → s'.parent = s.parent
  setParent {s s' : State} : R s s' → ∀ parent, R { s with parent } { s' with parent }
  emit {s s' : State} : R s s' → ∀ ev,
    R { s with events := ev :: s.events } { s' with events := ev :: s'.events }

/-- Related states have the same running template, and stay related when it changes on both sides. -/
structure Congruence (R : State → State → Prop) : Prop where
  scopes {s s' : State} : R s s' → s'.scopes = s.scopes
  output {s s' : State} : R s s' → s'.output = s.output
  parent {s s' : State} : R s s' → s'.parent = s.parent
  setScopes {s s' : State} : R s s' → ∀ scopes, R { s with scopes } { s' with scopes }
  setOutput {s s' : State} : R s s' → ∀ output, R { s with output } { s' with output }
  setParent {s s' : State} : R s s' → ∀ parent, R { s with parent } { s' with parent }
  emit {s s' : State} : R s s' → ∀ ev,
    R { s with events := ev :: s.events } { s' with events := ev :: s'.events }

/-- Related states have the same slots and the same data as well. -/
structure CallCongruence (R : State → State → Prop) : Prop extends Congruence R where
  main {s s' : State} : R s s' → s'.context.main = s.context.main
  mainContent {s s' : State} : R s s' → s'.mainContent = s.mainContent
  root {s s' : State} : R s s' → s'.root = s.root
  yields {s s' : State} : R s s' → s'.context.yields = s.context.yields
  blocks {s s' : State} : R s s' → s'.context.blocks = s.context.blocks
  setYields {s s' : State} : R s s' → ∀ yields, R { s with context := { s.context with yields } }
    { s' with context := { s'.context with yields } }
  setBlocks {s s' : State} : R s s' → ∀ blocks, R { s with context := { s.context with blocks } }
    { s' with context := { s'.context with blocks } }

namespace ChainCongruence

variable (h : ChainCongruence R)

include h

theorem alike_emit (ev : Event) : Alike R (Run.emit ev) (Run.emit ev) :=
  .modifyState fun _ _ hs => h.emit hs ev

theorem alike_keepingParent {act act' : Run α} (hact : Alike R act act') :
    Alike R (Run.keepingParent act) (Run.keepingParent act') := by
  refine .guarded (fun s s' hs => h.setParent hs none) (fun s s' _ _ hs ht => ?_) hact
  rw [h.parent hs]
  exact h.setParent ht _

end ChainCongruence

namespace Congruence

variable (h : Congruence R)

include h

theorem chain : ChainCongruence R := ⟨h.parent, h.setParent, h.emit⟩

theorem alike_emit (ev : Event) : Alike R (Run.emit ev) (Run.emit ev) := h.chain.alike_emit ev

theorem alike_write (text : String) : Alike R (Run.write text) (Run.write text) :=
  .modifyState fun s s' hs => by
    rw [h.output hs]
    exact h.setOutput hs _

theorem alike_inScope {act act' : Run α} (enter : Scopes → Scopes) (hact : Alike R act act') :
    Alike R (Run.inScope enter act) (Run.inScope enter act') := by
  refine .guarded (fun s s' hs => ?_) (fun _ _ t t' _ ht => ?_) hact
  · rw [h.scopes hs]
    exact h.setScopes hs _
  · rw [h.scopes ht]
    exact h.setScopes ht _

end Congruence

end Run

namespace Eval

open Run

variable {R : State → State → Prop} {e : Environment} {run run' : Runner} {context : HtmlContext}

/-! ## Pipelines -/

/-- The calls do alike, with all arguments that they may get. -/
def CallsAlike (R : State → State → Prop) (e : Environment) (run run' : Runner)
    (context : HtmlContext) (calls : List (String × FirstArgument)) : Prop :=
  ∀ c ∈ calls, ∀ args, c.2.Admits args →
    Alike R (call e run context c.1 args) (call e run' context c.1 args)

/-- The values of the operands of a call are arguments that its text admits. -/
theorem keeps_admits (context : HtmlContext) (xs : List Expr) :
    Keeps (fun _ => True) (operands e run context xs) fun vs =>
      ∀ last : Option Value, (Expr.firstArgument last.isSome xs).Admits (vs ++ last.toList) := by
  match xs with
  | [] =>
    refine .pure fun last => ?_
    cases last with
    | none => rfl
    | some v => trivial
  | .const v :: xs =>
    exact (Keeps.pure (Q := (· = v)) rfl).bind fun w hw => .seq (.any _) fun vs =>
      .pure fun _ => congrArg some hw
  | .dot :: _ => exact .mono (.any _) fun _ _ _ => trivial
  | .field _ :: _ => exact .mono (.any _) fun _ _ _ => trivial
  | .variable _ _ :: _ => exact .mono (.any _) fun _ _ _ => trivial
  | .call _ :: _ => exact .mono (.any _) fun _ _ _ => trivial
  | .group _ _ :: _ => exact .mono (.any _) fun _ _ _ => trivial

theorem CallsAlike.append {cs ds : List (String × FirstArgument)}
    (h : CallsAlike R e run run' context (cs ++ ds)) :
    CallsAlike R e run run' context cs ∧ CallsAlike R e run run' context ds :=
  List.forall_mem_append.1 h

section Pipelines

theorem alike_lookup (h : Congruence R) (name : String) : Alike R (lookup name) (lookup name) := by
  refine .getState fun s s' hs => ?_
  rw [h.scopes hs]
  cases Scopes.lookup? name s.scopes with
  | some v => exact .pure v
  | none => exact .fail _

theorem alike_declare (h : Congruence R) (name : String) (v : Value) :
    Alike R (Eval.declare name v) (Eval.declare name v) :=
  .modifyState fun s s' hs => by
    rw [h.scopes hs]
    exact h.setScopes hs _

theorem alike_assign (h : Congruence R) (name : String) (v : Value) :
    Alike R (Eval.assign name v) (Eval.assign name v) := by
  refine .getState fun s s' hs => ?_
  rw [h.scopes hs]
  cases Scopes.assign? name v s.scopes with
  | some scopes => exact .setState (h.setScopes hs scopes)
  | none => exact .fail _

theorem alike_bind (h : Congruence R) (assigns : Bool) (v : Value) (names : List String) :
    Alike R (Eval.bind assigns v names) (Eval.bind assigns v names) := by
  induction names with
  | nil => exact .pure ()
  | cons name names ih =>
    cases assigns with
    | false => exact .bind (alike_declare h name v) fun _ => ih
    | true => exact .bind (alike_assign h name v) fun _ => ih

mutual

theorem alike_operand (h : Congruence R) : ∀ x : Expr,
    CallsAlike R e run run' context x.calls →
      Alike R (operand e run context x) (operand e run' context x)
  | .dot, _ => .getState fun s s' hs => by
    rw [h.scopes hs]
    exact .pure _
  | .field _, _ => .getState fun s s' hs => by
    rw [h.scopes hs]
    exact .lift _
  | .variable name _, _ => .bind (alike_lookup h name) fun _ => .lift _
  | .call name, hx => hx (name, .absent) (by simp [Expr.calls]) [] rfl
  | .const v, _ => .pure v
  | .group ⟨_, _, cs⟩ _, hx => .bind (alike_commands h cs none hx) fun _ => .lift _

theorem alike_operands (h : Congruence R) : ∀ xs : List Expr,
    CallsAlike R e run run' context (Expr.callsOfOperands xs) →
      Alike R (operands e run context xs) (operands e run' context xs)
  | [], _ => .pure []
  | x :: xs, hx => by
    rw [Expr.callsOfOperands] at hx
    exact .bind (alike_operand h x hx.append.1) fun _ =>
      .bind (alike_operands h xs hx.append.2) fun _ => .pure _

theorem alike_command (h : Congruence R) : ∀ (c : List Expr) (last : Option Value),
    CallsAlike R e run run' context (Expr.callsOfCommand last.isSome c) →
      Alike R (command e run context last c) (command e run' context last c)
  | [], _, _ => .fail _
  | x :: xs, last, hx => by
    by_cases hcall : ∃ name, x = .call name
    · obtain ⟨name, rfl⟩ := hcall
      rw [Expr.callsOfCommand] at hx
      refine .bindOf (alike_operands h xs fun c hc => hx c (by simp [hc])) (keeps_admits context xs)
        fun args hargs => ?_
      exact hx _ List.mem_cons_self _ (hargs last)
    · have hne : ∀ name, x ≠ .call name := fun name hn => hcall ⟨name, hn⟩
      rw [Expr.callsOfCommand_of_ne hne] at hx
      cases xs with
      | nil =>
        rw [command_single hne, command_single hne]
        split
        · exact alike_operand h x hx.append.1
        · exact .fail _
      | cons y ys =>
        rw [command_many hne, command_many hne]
        exact .fail _

theorem alike_commands (h : Congruence R) : ∀ (cs : List (List Expr)) (last : Option Value),
    CallsAlike R e run run' context (Expr.callsOfCommands last.isSome cs) →
      Alike R (commands e run context last cs) (commands e run' context last cs)
  | [], _, _ => .pure _
  | c :: cs, last, hx => by
    rw [Expr.callsOfCommands] at hx
    exact .bind (alike_command h c last hx.append.1) fun v =>
      alike_commands h cs (some v) hx.append.2

end

theorem alike_pipeline (h : Congruence R) (p : Pipeline)
    (hp : CallsAlike R e run run' context p.calls) :
    Alike R (pipeline e run context p) (pipeline e run' context p) :=
  .bind (alike_commands h p.commands none hp) fun v =>
    .bind (alike_bind h p.assigns v p.targets) fun _ => .pure v

end Pipelines

/-! ## Loops -/

section Loop

variable {body body' otherwise otherwise' : Run PUnit}

theorem alike_bindPair (h : Congruence R) (key item : Value) (targets : List String) :
    Alike R (bindPair key item targets) (bindPair key item targets) := by
  match targets with
  | [] => exact .pure ()
  | [x] => exact alike_declare h x item
  | [k, x] => exact .bind (alike_declare h k key) fun _ => alike_declare h x item
  | _ :: _ :: _ :: _ => exact .pure ()

theorem alike_passes (h : Congruence R) (targets : List String) (hbody : Alike R body body')
    (ps : List (Value × Value)) : Alike R (passes targets body ps) (passes targets body' ps) := by
  induction ps with
  | nil => exact .pure ()
  | cons p ps ih =>
    exact .bind (h.alike_inScope _ (.bind (alike_bindPair h p.1 p.2 targets) fun _ => hbody))
      fun _ => ih

theorem alike_loop (h : Congruence R) (targets : List String) (hbody : Alike R body body')
    (hother : Alike R otherwise otherwise') (ps : Value.Pairs) :
    Alike R (loop targets body otherwise ps) (loop targets body' otherwise' ps) := by
  rw [loop_eq, loop_eq]
  split
  · exact hother
  · exact alike_passes h targets hbody ps.toList

end Loop

/-! ## Nodes -/

/-- The calls of all pipelines at some sites do alike. -/
def SitesAlike (R : State → State → Prop) (e : Environment) (run run' : Runner)
    (sites : List (HtmlContext × Pipeline)) : Prop :=
  ∀ site ∈ sites, CallsAlike R e run run' site.1 site.2.calls

theorem SitesAlike.append {ss ts : List (HtmlContext × Pipeline)}
    (h : SitesAlike R e run run' (ss ++ ts)) :
    SitesAlike R e run run' ss ∧ SitesAlike R e run run' ts :=
  List.forall_mem_append.1 h

theorem SitesAlike.cons {p : Pipeline} {ss : List (HtmlContext × Pipeline)}
    (h : SitesAlike R e run run' ((context, p) :: ss)) :
    CallsAlike R e run run' context p.calls ∧ SitesAlike R e run run' ss :=
  List.forall_mem_cons.1 h

mutual

theorem alike_node (h : Congruence R) (hrun : ∀ name dot, Alike R (run name dot) (run' name dot))
    (t : Template) : ∀ n : Node, SitesAlike R e run run' n.sites →
      Alike R (node e run t n) (node e run' t n)
  | .text s, _ => h.alike_write s
  | .action line context p, hn => by
    refine .bind (.located _ _ (alike_pipeline h p hn.cons.1)) fun v => ?_
    split
    · exact h.alike_write _
    · exact .pure ()
  | .cond line negated p body otherwise, hn => by
    obtain ⟨hp, hs⟩ := SitesAlike.cons hn
    refine h.alike_inScope _ <| .bind (.located _ _ (alike_pipeline h p hp)) fun v => ?_
    split
    · exact h.alike_inScope _ (alike_nodes h hrun t body hs.append.1)
    · exact h.alike_inScope _ (alike_nodes h hrun t otherwise hs.append.2)
  | .range line p body otherwise, hn => by
    obtain ⟨hp, hs⟩ := SitesAlike.cons hn
    have hbody := alike_nodes h hrun t body hs.append.1
    have hother := h.alike_inScope Scopes.pushSame (alike_nodes h hrun t otherwise hs.append.2)
    refine .located _ _ <| h.alike_inScope _ <| .bind (alike_commands h p.commands none hp) fun v => ?_
    exact .bind (.lift _) fun ps => alike_loop h p.targets hbody hother ps
  | .scope line p body otherwise, hn => by
    obtain ⟨hp, hs⟩ := SitesAlike.cons hn
    refine h.alike_inScope _ <| .bind (.located _ _ (alike_pipeline h p hp)) fun v => ?_
    split
    · exact h.alike_inScope _ (alike_nodes h hrun t body hs.append.1)
    · exact h.alike_inScope _ (alike_nodes h hrun t otherwise hs.append.2)
  | .template line name none, _ =>
    .bind (.pure _) fun dot => .bind ((hrun name dot).located t.name line) h.alike_write
  | .template line name (some p), hn =>
    .bind (.located _ _ (alike_pipeline h p (hn (.body, p) (by simp [Node.sites])))) fun dot =>
      .bind ((hrun name dot).located t.name line) h.alike_write

/-- **Calls that do alike make nodes that do alike**, by recursion over the nodes. -/
theorem alike_nodes (h : Congruence R) (hrun : ∀ name dot, Alike R (run name dot) (run' name dot))
    (t : Template) : ∀ ns : List Node, SitesAlike R e run run' (Node.sitesOf ns) →
      Alike R (nodes e run t ns) (nodes e run' t ns)
  | [], _ => .pure ()
  | n :: ns, hn => by
    rw [Node.sitesOf] at hn
    exact .bind (alike_node h hrun t n hn.append.1) fun _ => alike_nodes h hrun t ns hn.append.2

end

/-! ## Calls -/

theorem ofName?_eq_some {name : String} {c : Composition} (h : Composition.ofName? name = some c) :
    name = c.name := by
  have hname := List.find?_some h
  exact (of_decide_eq_true hname).symm

section Calls

variable (hrun : ∀ name dot, Alike R (run name dot) (run' name dot))

include hrun in
theorem alike_ranTemplate (template : String) (dot : Value) :
    Alike R (ranTemplate run template dot) (ranTemplate run' template dot) :=
  .bind (hrun template dot) fun _ => .pure _

variable (h : CallCongruence R)

include h

theorem alike_pushFrame (f : Frame) : Alike R (pushFrame f) (pushFrame f) :=
  .modifyState fun s s' hs => by
    rw [h.output hs]
    exact h.setOutput hs _

theorem alike_closeBlock : Alike R closeBlock closeBlock := by
  refine .getState fun s s' hs => ?_
  have hclaimed : s'.context.isClaimed = s.context.isClaimed := by
    funext slot
    rw [RenderContext.isClaimed, RenderContext.isClaimed, h.yields hs, h.blocks hs]
  rw [h.output hs]
  rcases s.output.pop with ⟨frame, output⟩
  match frame with
  | none => exact .fail _
  | some .discard => exact .setState (h.setOutput hs _)
  | some .through => exact .setState (h.setOutput hs _)
  | some (.capture slot kind content) =>
    dsimp only
    rw [hclaimed]
    split
    · exact .bind (.setState (h.setOutput hs _)) fun _ => h.alike_emit _
    · refine .bind (.setState ?_) fun _ => h.alike_emit _
      rw [RenderContext.fillSlot, RenderContext.fillSlot, h.blocks hs]
      exact h.setOutput (h.setBlocks hs _) _

include hrun

theorem alike_yieldMain (data : Option Value) :
    Alike R (yieldMain run data) (yieldMain run' data) := by
  refine .getState fun s s' hs => ?_
  rw [h.mainContent hs, h.main hs, h.root hs]
  split
  · exact .pure _
  · split
    · exact .fail _
    · exact alike_ranTemplate hrun _ _

theorem alike_yieldSlot (slot : String) (data : Option Value) (fallback : Option String) :
    Alike R (yieldSlot run context slot data fallback)
      (yieldSlot run' context slot data fallback) := by
  refine .getState fun s s' hs => ?_
  dsimp only
  rw [h.yields hs, h.blocks hs, h.root hs]
  split
  · exact .bind (h.alike_emit _) fun _ => alike_ranTemplate hrun _ _
  · exact .bind (h.alike_emit _) fun _ => .bind (.lift _) fun _ => .pure _
  · exact .bind (h.alike_emit _) fun _ => alike_ranTemplate hrun _ _
  · exact .pure _

theorem alike_yieldContent (args : List Value) :
    Alike R (yieldContent run context args) (yieldContent run' context args) := by
  unfold yieldContent
  split
  · exact .bind (.lift _) fun _ => alike_yieldSlot hrun h _ _ _
  · exact .bind (.lift _) fun _ => alike_yieldMain hrun h _

/-- A block is opened alike where it is captured alike. -/
theorem alike_openBlock (hcapturing : ∀ s s', R s s' → s'.isCapturing = s.isCapturing)
    (slot : String) : Alike R (openBlock run context slot) (openBlock run' context slot) := by
  refine .getState fun s s' hs => ?_
  rw [hcapturing s s' hs, h.yields hs, h.blocks hs, h.root hs]
  split
  · exact alike_pushFrame h _
  · split
    · exact .bind (h.alike_emit _) fun _ => .bind (hrun _ _) fun text =>
        .bind (h.alike_write text) fun _ => alike_pushFrame h _
    · exact .bind (h.alike_emit _) fun _ => .bind (.lift _) fun text =>
        .bind (h.alike_write text) fun _ => alike_pushFrame h _
    · exact alike_pushFrame h _

theorem alike_compose (c : Composition)
    (hcapturing : c = .block → ∀ s s', R s s' → s'.isCapturing = s.isCapturing) (args : List Value) :
    Alike R (compose run context c args) (compose run' context c args) := by
  cases c with
  | yield => exact alike_yieldContent hrun h args
  | contentFor =>
    unfold compose
    dsimp only
    split
    · refine .bind (h.alike_emit _) fun _ => .bind (.modifyState fun s s' hs => ?_) fun _ => .pure _
      rw [RenderContext.mapSlot, RenderContext.mapSlot, h.yields hs]
      exact h.setYields hs _
    · exact .fail _
  | block =>
    exact .bind (.lift _) fun slot =>
      .bind (alike_openBlock hrun h (hcapturing rfl) slot) fun _ => .pure _
  | defineBlock => exact .bind (.lift _) fun _ => .bind (alike_pushFrame h _) fun _ => .pure _
  | endBlock => exact .bind (alike_closeBlock h) fun _ => .pure _
  | extend =>
    refine .bind (.lift _) fun _ => .bind (.modifyState fun s s' hs => ?_) fun _ => .pure _
    rw [h.output hs]
    exact h.setOutput (h.setParent hs (some _)) _
  | exec =>
    refine .bind (.lift _) fun _ => .getState fun s s' hs => ?_
    rw [h.root hs]
    exact alike_ranTemplate hrun _ _
  | rootDot =>
    refine .getState fun s s' hs => ?_
    rw [h.root hs]
    exact .pure _
  | fallback => exact .bind (.lift _) fun _ => .pure _

/-- **Runners that do alike make calls that do alike**; for a call of `block` it has to be known
besides that blocks are captured alike. -/
theorem alike_call (e : Environment) (name : String)
    (hcapturing : name = Composition.block.name → ∀ s s', R s s' → s'.isCapturing = s.isCapturing)
    (args : List Value) : Alike R (call e run context name args) (call e run' context name args) := by
  unfold call
  split
  · next c hc =>
    refine alike_compose hrun h c (fun hblock => hcapturing ?_) args
    rw [ofName?_eq_some hc, hblock]
  · split
    · exact .attempt _
    · exact .fail _

end Calls

end Eval

/-! ## Templates -/

namespace Run

/-- Inside of a template the states are related by `R'` if they are related by `R` around it. -/
structure Nested (R R' : State → State → Prop) : Prop where
  depth {s s' : State} : R s s' → s'.depth = s.depth
  enter {s s' : State} : R s s' → ∀ scopes,
    R' { s with scopes, output := {}, depth := s.depth + 1 }
      { s' with scopes, output := {}, depth := s'.depth + 1 }
  leave {s s' t t' : State} : R s s' → R' t t' →
    R { t with scopes := s.scopes, output := s.output, depth := t.depth - 1 }
      { t' with scopes := s'.scopes, output := s'.output, depth := t'.depth - 1 }

theorem Nested.alike_isolated {R R' : State → State → Prop} {α : Type} {act act' : Run α}
    (h : Nested R R') (dot : Value) (hact : Alike R' act act') :
    Alike R (Run.isolated dot act) (Run.isolated dot act') :=
  .guarded (fun _ _ hs => h.enter hs _) (fun _ _ _ _ hs ht => h.leave hs ht) hact

end Run

namespace Render

open Run

variable {R R' : State → State → Prop} {e : Environment}

theorem alike_finished (h : Congruence R) : Alike R finished finished := by
  refine .getState fun s s' hs => ?_
  rw [h.output hs]
  dsimp only
  split
  · exact .pure _
  · exact .fail _

theorem alike_takeParent (h : ChainCongruence R) : Alike R takeParent takeParent :=
  .getState fun s s' hs => .bind (.setState (h.setParent hs none)) fun _ => by
    rw [h.parent hs]
    exact .pure _

/-- A template is run alike if its nodes are, wherever the limit on the depth lets it run. -/
theorem alike_execute (hR : Nested R R') (h : Congruence R') {run run' : Runner} {name : String}
    (hnodes : ∀ s s', R s s' → s.depth < maxDepth → ∀ t, e.template name = .ok t →
      Alike R' (Eval.nodes e run t t.nodes) (Eval.nodes e run' t t.nodes)) (dot : Value) :
    Alike R (execute e run name dot) (execute e run' name dot) := by
  refine .bindOf (.lift _) (.lift (Q := fun t => e.template name = .ok t) fun _ ht => ht)
    fun t ht s s' hs => ?_
  rw [get_bind, get_bind, hR.depth hs]
  split
  · exact .error hs
  · next hdepth =>
    have hinside := hnodes s s' hs (Nat.lt_of_not_le hdepth) t ht
    exact Alike.located t.name 0 (hR.alike_isolated dot (.bind hinside fun _ => alike_finished h))
      s s' hs

theorem alike_followParents (h : ChainCongruence R)
    (hroot : ∀ s s', R s s' → s'.root = s.root) {exec exec' : Runner}
    (hexec : ∀ name dot, Alike R (exec name dot) (exec' name dot)) (name : String) (n : Nat) :
    ∀ output, Alike R (followParents exec name n output) (followParents exec' name n output) := by
  induction n with
  | zero =>
    refine fun output => .bind (alike_takeParent h) fun parent => ?_
    cases parent with
    | none => exact .pure _
    | some _ => exact .fail _
  | succ n ih =>
    refine fun output => .bind (alike_takeParent h) fun parent => ?_
    cases parent with
    | none => exact .pure _
    | some parent =>
      refine .bind (h.alike_emit _) fun _ => .getState fun s s' hs => ?_
      rw [hroot s s' hs]
      exact .bind (hexec parent _) ih

/-- **Templates that are run alike make chains that are run alike.** -/
theorem alike_chain (h : ChainCongruence R) (hroot : ∀ s s', R s s' → s'.root = s.root)
    {exec exec' : Runner} (hexec : ∀ name dot, Alike R (exec name dot) (exec' name dot))
    (name : String) (dot : Value) : Alike R (runChain exec name dot) (runChain exec' name dot) :=
  h.alike_keepingParent <| .bind (hexec name dot) (alike_followParents h hroot hexec name maxParents)

end Render

end Stencil
