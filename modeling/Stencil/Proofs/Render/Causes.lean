import Stencil.Pipeline.Printer
import Stencil.Proofs.Entries
import Stencil.Proofs.Render.Ends
import Stencil.Proofs.Render.Evaluation
import Stencil.Render.Basic

/-!
# Faults that no rendering has

The evaluator stops with a fault of its own at a command without operands. No statement denotes such
a command, so a rendering of templates whose pipelines were read from statements never has that fault.

* `Run.Avoids c act` says that the computation `act` never fails with the cause `c`; its lemmas follow
  the ways in which computations are put together.
* `Environment.functionsSound_standard` says that no standard function reports it.
* `Eval.avoids_call` is about the calls, `Eval.avoids_pipeline` about well formed pipelines and
  `Eval.avoids_nodes` about nodes.
* `Environment.render_cause_ne` concludes for whole renderings, by induction on the room for templates.
-/

namespace Stencil

namespace Run

open Render

variable {α β : Type} {c : Cause}

/-- The computation never fails with the cause `c`. -/
def Avoids (c : Cause) (act : Run α) : Prop := ∀ s f t, act s = .error f t → f.cause ≠ c

theorem cause_atPlace (f : Fault) (template : String) (line : Nat) :
    (f.atPlace template line).cause = f.cause := by
  unfold Fault.atPlace Fault.atLine
  split
  · rfl
  · split <;> rfl

namespace Avoids

theorem pure (a : α) : Avoids c (Pure.pure a : Run α) := fun _ _ _ h => by cases h

theorem fail {c' : Cause} (h : c' ≠ c) : Avoids c (Run.fail c' : Run α) := fun _ _ _ he => by
  cases he
  exact h

theorem attempt {r : Except Fault α} (h : ∀ f, r = .error f → f.cause ≠ c) :
    Avoids c (Run.attempt r) := fun _ f _ he => h f (attempt_eq_error he)

theorem lift {o : Outcome α} (h : o ≠ .error c) : Avoids c (Run.lift o) := by
  refine attempt fun f hf => ?_
  obtain ⟨c', rfl, rfl⟩ := Outcome.raised_eq_error.1 hf
  exact fun heq => h (congrArg _ heq)

/-- The value of a computation without a state is known behind it. -/
theorem lift_bind {o : Outcome α} {k : α → Run β} (h : o ≠ .error c)
    (hk : ∀ a, o = .ok a → Avoids c (k a)) : Avoids c (Run.lift o >>= k) := by
  cases o with
  | ok a => exact hk a rfl
  | error c' => exact fun _ _ _ he => by cases he; exact fun heq => h (congrArg _ heq)

theorem bind {act : Run α} {k : α → Run β} (h : Avoids c act) (hk : ∀ a, Avoids c (k a)) :
    Avoids c (act >>= k) := by
  intro s f t he
  rcases bind_eq_error he with hact | ⟨a, u, -, hnext⟩
  · exact h s f t hact
  · exact hk a u f t hnext

theorem getState {k : State → Run β} (h : ∀ s, Avoids c (k s)) :
    Avoids c ((MonadState.get : Run State) >>= k) := fun s => h s s

theorem setState (s : State) : Avoids c (MonadStateOf.set s : Run PUnit) := fun _ _ _ h => by cases h

theorem modifyState (f : State → State) : Avoids c (modify f : Run PUnit) :=
  fun _ _ _ h => by cases h

theorem located {act : Run α} (template : String) (line : Nat) (h : Avoids c act) :
    Avoids c (Run.located template line act) := by
  intro s f t he
  obtain ⟨g, hact, rfl⟩ := located_eq_error he
  rw [cause_atPlace]
  exact h s g t hact

theorem guarded {enter : State → State} {leave : State → State → State} {act : Run α}
    (h : Avoids c act) : Avoids c (Run.guarded enter leave act) := by
  intro s f t he
  obtain ⟨u, hact, -⟩ := guarded_eq_error he
  exact h (enter s) f u hact

end Avoids

end Run

namespace Eval

open Render Run

variable {e : Environment} {run : Runner} {context : HtmlContext} {constant : Value → Bool}
  {room : Nat}

/-! ## Looking into values and arguments -/

theorem fields_ne (names : List String) (v : Value) : v.fields names ≠ .error .emptyCommand := by
  induction names generalizing v with
  | nil => exact nofun
  | cons name names ih =>
    cases hf : v.field name with
    | ok w =>
      rw [Value.fields, hf]
      exact ih w
    | error c =>
      rw [Value.fields, hf]
      intro h
      obtain rfl : c = .emptyCommand := Except.error.inj h
      unfold Value.field at hf
      split at hf <;> cases hf

theorem pairs_ne (v : Value) : v.pairs ≠ .error .emptyCommand := by
  unfold Value.pairs
  split
  · exact nofun
  · exact nofun
  · split <;> exact nofun
  · exact nofun
  · exact nofun
  · exact nofun

theorem stringArg_ne (c : Composition) (expected : Expected) (args : List Value) :
    stringArg c expected args ≠ .error .emptyCommand := by
  unfold stringArg
  split <;> exact nofun

theorem blockContent_ne (slot : String) (b : Block) :
    blockContent slot b context ≠ .error .emptyCommand := by
  unfold blockContent
  split <;> exact nofun

theorem yieldArgs_ne (args : List Value) : ∀ (data : Option Value) (fallback : Option String),
    yieldArgs data fallback args ≠ .error .emptyCommand := by
  induction args with
  | nil => exact nofun
  | cons v vs ih =>
    intro data fallback
    cases hv : v.asFallback? with
    | some template =>
      simp only [yieldArgs, hv]
      exact ih _ _
    | none =>
      cases data with
      | none =>
        simp only [yieldArgs, hv]
        exact ih _ _
      | some w =>
        simp only [yieldArgs, hv]
        exact nofun

theorem template_ne (name : String) : e.template name ≠ .error .emptyCommand := by
  unfold Environment.template
  split <;> exact nofun

/-! ## Calls -/

/-- Running a template never reports a command without operands. -/
def Runs (run : Runner) : Prop := ∀ name dot, Avoids .emptyCommand (run name dot)

theorem avoids_ranTemplate (hrun : Runs run) (template : String) (dot : Value) :
    Avoids .emptyCommand (ranTemplate run template dot) :=
  .bind (hrun template dot) fun _ => .pure _

theorem avoids_yieldMain (hrun : Runs run) (data : Option Value) :
    Avoids .emptyCommand (yieldMain run data) := by
  refine .getState fun s => ?_
  split
  · exact .pure _
  · split
    · exact .fail nofun
    · exact avoids_ranTemplate hrun _ _

theorem avoids_yieldSlot (hrun : Runs run) (slot : String) (data : Option Value)
    (fallback : Option String) :
    Avoids .emptyCommand (yieldSlot run context slot data fallback) := by
  refine .getState fun s => ?_
  dsimp only
  split
  · exact .bind (.modifyState _) fun _ => avoids_ranTemplate hrun _ _
  · exact .bind (.modifyState _) fun _ => .bind (.lift (blockContent_ne _ _)) fun _ => .pure _
  · exact .bind (.modifyState _) fun _ => avoids_ranTemplate hrun _ _
  · exact .pure _

theorem avoids_yieldContent (hrun : Runs run) (args : List Value) :
    Avoids .emptyCommand (yieldContent run context args) := by
  unfold yieldContent
  split
  · exact .bind (.lift (yieldArgs_ne _ _ _)) fun _ => avoids_yieldSlot hrun _ _ _
  · exact .bind (.lift (yieldArgs_ne _ _ _)) fun _ => avoids_yieldMain hrun _

theorem avoids_openBlock (hrun : Runs run) (slot : String) :
    Avoids .emptyCommand (openBlock run context slot) := by
  refine .getState fun s => ?_
  split
  · exact .modifyState _
  · split
    · exact .bind (.modifyState _) fun _ => .bind (hrun _ _) fun _ =>
        .bind (.modifyState _) fun _ => .modifyState _
    · exact .bind (.modifyState _) fun _ => .bind (.lift (blockContent_ne _ _)) fun _ =>
        .bind (.modifyState _) fun _ => .modifyState _
    · exact .modifyState _

theorem avoids_closeBlock : Avoids .emptyCommand closeBlock := by
  refine .getState fun s => ?_
  dsimp only
  split
  · exact .fail nofun
  · split
    · exact .bind (.setState _) fun _ => .modifyState _
    · exact .bind (.setState _) fun _ => .modifyState _
  · exact .setState _

theorem avoids_compose (hrun : Runs run) (c : Composition) (args : List Value) :
    Avoids .emptyCommand (compose run context c args) := by
  cases c with
  | yield => exact avoids_yieldContent hrun args
  | contentFor =>
    unfold compose
    dsimp only
    split
    · exact .bind (.modifyState _) fun _ => .bind (.modifyState _) fun _ => .pure _
    · exact .fail nofun
  | block =>
    exact .bind (.lift (stringArg_ne _ _ _)) fun _ => .bind (avoids_openBlock hrun _) fun _ => .pure _
  | defineBlock =>
    exact .bind (.lift (stringArg_ne _ _ _)) fun _ => .bind (.modifyState _) fun _ => .pure _
  | endBlock => exact .bind avoids_closeBlock fun _ => .pure _
  | extend =>
    exact .bind (.lift (stringArg_ne _ _ _)) fun _ => .bind (.modifyState _) fun _ => .pure _
  | exec =>
    exact .bind (.lift (stringArg_ne _ _ _)) fun _ => .getState fun _ => avoids_ranTemplate hrun _ _
  | rootDot => exact .getState fun _ => .pure _
  | fallback => exact .bind (.lift (stringArg_ne _ _ _)) fun _ => .pure _

end Eval

/-- A function does not report a command without operands: that fault belongs to the evaluator. -/
def Function.Sound (f : Function) : Prop :=
  ∀ args fault, f args = .error fault → fault.cause ≠ .emptyCommand

/-- All functions of an environment are sound. -/
def Environment.FunctionsSound (e : Environment) : Prop :=
  ∀ name f, Table.get? name e.functions = some f → f.Sound

namespace Function

/-- The same of a function that fails with a cause. -/
def Builtin.Sound (f : Builtin) : Prop := ∀ args, f args ≠ .error .emptyCommand

theorem Builtin.sound_function {f : Builtin} (h : f.Sound) : f.function.Sound := by
  intro args fault hf
  obtain ⟨c, hc, rfl⟩ := Outcome.raised_eq_error.1 hf
  rintro rfl
  exact h args hc

theorem sound_of_total (f : List Value → Value) : Builtin.Sound fun args => .ok (f args) := fun _ => nofun

theorem sound_and : Builtin.Sound and := by
  intro args
  cases args with
  | nil => exact nofun
  | cons v vs => exact nofun

theorem sound_or : Builtin.Sound or := by
  intro args
  cases args with
  | nil => exact nofun
  | cons v vs => exact nofun

theorem sound_not : Builtin.Sound not
  | [] => nofun
  | [_] => nofun
  | _ :: _ :: _ => nofun

theorem agreesWithAny_ne (v : Value) (ws : List Value) :
    agreesWithAny v ws ≠ .error .emptyCommand := by
  induction ws with
  | nil => exact nofun
  | cons w ws ih =>
    rw [agreesWithAny]
    split
    · exact nofun
    · split
      · exact nofun
      · exact ih

theorem sound_eq : Builtin.Sound eq
  | [] => nofun
  | [_] => nofun
  | v :: w :: ws => by
    have hne := agreesWithAny_ne v (w :: ws)
    cases h : agreesWithAny v (w :: ws) with
    | ok b => simp [eq, h, Bind.bind, Except.bind, Pure.pure, Except.pure]
    | error c => simpa [eq, h, Bind.bind, Except.bind] using hne

theorem sound_ne : Builtin.Sound ne := by
  intro args
  have hne := sound_eq args
  unfold ne exactly
  split
  · cases h : eq args with
    | ok v => exact nofun
    | error c => simpa [h, Bind.bind, Except.bind, Pure.pure, Except.pure] using hne
  · exact nofun

theorem sound_ordering (name : String) (holds : Ordering → Bool) : Builtin.Sound (ordering name holds)
  | [] => nofun
  | [_] => nofun
  | [v, w] => by
    intro h
    simp only [ordering] at h
    split at h
    · cases h
    · have hcause : unordered v w = .emptyCommand := Except.error.inj h
      unfold unordered at hcause
      split at hcause <;> cases hcause
  | _ :: _ :: _ :: _ => nofun

theorem sound_len : Builtin.Sound len
  | [] => nofun
  | [v] => by
    intro h
    simp only [len] at h
    split at h <;> cases h
  | _ :: _ :: _ => nofun

theorem item_ne (v key : Value) : v.item key ≠ .error .emptyCommand := by
  intro h
  unfold Value.item at h
  split at h
  · split at h <;> cases h
  · split at h <;> cases h
  all_goals cases h

theorem itemAt_ne (keys : List Value) (v : Value) : itemAt v keys ≠ .error .emptyCommand := by
  induction keys generalizing v with
  | nil => exact nofun
  | cons key keys ih =>
    have hne := item_ne v key
    cases h : v.item key with
    | ok w => simpa [itemAt, h, Bind.bind, Except.bind] using ih w
    | error c => simpa [itemAt, h, Bind.bind, Except.bind] using hne

theorem sound_index : Builtin.Sound index := by
  intro args
  cases args with
  | nil => exact nofun
  | cons v keys => exact itemAt_ne keys v

end Function

/-- The functions of a new environment are sound. -/
theorem Environment.functionsSound_standard : standard.FunctionsSound := by
  intro name f hf
  obtain ⟨b, hb, rfl⟩ := Function.exists_of_mem_standard (Table.mem_of_get? hf)
  refine Function.Builtin.sound_function ?_
  simp only [Function.builtins, List.mem_cons, Prod.mk.injEq, List.not_mem_nil, or_false] at hb
  rcases hb with ⟨-, rfl⟩ | ⟨-, rfl⟩ | ⟨-, rfl⟩ | ⟨-, rfl⟩ | ⟨-, rfl⟩ | ⟨-, rfl⟩ | ⟨-, rfl⟩ |
    ⟨-, rfl⟩ | ⟨-, rfl⟩ | ⟨-, rfl⟩ | ⟨-, rfl⟩ | ⟨-, rfl⟩ | ⟨-, rfl⟩ | ⟨-, rfl⟩ | ⟨-, rfl⟩ |
    ⟨-, rfl⟩ | ⟨-, rfl⟩
  · exact Function.sound_and
  · exact Function.sound_or
  · exact Function.sound_not
  · exact Function.sound_eq
  · exact Function.sound_ne
  · exact Function.sound_ordering _ _
  · exact Function.sound_ordering _ _
  · exact Function.sound_ordering _ _
  · exact Function.sound_ordering _ _
  · exact Function.sound_len
  · exact Function.sound_index
  · exact Function.sound_of_total _
  · exact Function.sound_of_total _
  · exact Function.sound_of_total _
  · exact Function.sound_of_total _
  · exact Function.sound_of_total _
  · exact Function.sound_of_total _

namespace Eval

open Render Run

variable {e : Environment} {run : Runner} {context : HtmlContext} {constant : Value → Bool}
  {room : Nat}

theorem avoids_call (hrun : Runs run) (he : e.FunctionsSound) (name : String) (args : List Value) :
    Avoids .emptyCommand (call e run context name args) := by
  unfold call
  split
  · exact avoids_compose hrun _ _
  · split
    · next f hf => exact .attempt (he name f hf args)
    · exact .fail nofun

/-! ## Pipelines -/

mutual

theorem avoids_operand (hrun : Runs run) (he : e.FunctionsSound) : ∀ {room : Nat} (x : Expr),
    x.isFormed constant room = true → Avoids .emptyCommand (operand e run context x)
  | _, .dot, _ => .getState fun _ => .pure _
  | _, .field names, _ => .getState fun _ => .lift (fields_ne names _)
  | _, .variable name fields, _ => by
    refine .bind (.getState fun s => ?_) fun v => .lift (fields_ne fields v)
    split
    · exact .pure _
    · exact .fail nofun
  | _, .call name, _ => avoids_call hrun he name []
  | _, .const v, _ => .pure v
  | _, .group ⟨_, _, cs⟩ fields, hx => by
    simp only [Expr.isFormed, Bool.and_eq_true] at hx
    exact .bind (avoids_commands hrun he cs none hx.1.2) fun v => .lift (fields_ne fields v)

theorem avoids_operands (hrun : Runs run) (he : e.FunctionsSound) : ∀ {room : Nat}
    (xs : List Expr), Expr.operandsFormed constant room xs = true →
      Avoids .emptyCommand (operands e run context xs)
  | _, [], _ => .pure _
  | _, x :: xs, hxs => by
    rw [Expr.operandsFormed, Bool.and_eq_true] at hxs
    exact .bind (avoids_operand hrun he x hxs.1) fun _ =>
      .bind (avoids_operands hrun he xs hxs.2) fun _ => .pure _

/-- The only command that is refused for having no operands is the one without any. -/
theorem avoids_command (hrun : Runs run) (he : e.FunctionsSound) : ∀ {room : Nat}
    (c : List Expr) (last : Option Value), Expr.commandFormed c = true →
      Expr.operandsFormed constant room c = true → Avoids .emptyCommand (command e run context last c)
  | _, [], _, hc, _ => nomatch hc
  | _, x :: xs, last, _, hxs => by
    rw [Expr.operandsFormed, Bool.and_eq_true] at hxs
    by_cases hcall : ∃ name, x = .call name
    · obtain ⟨name, rfl⟩ := hcall
      exact .bind (avoids_operands hrun he xs hxs.2) fun _ => avoids_call hrun he name _
    · have hx : ∀ name, x ≠ .call name := fun name hn => hcall ⟨name, hn⟩
      cases xs with
      | nil =>
        rw [command_single hx]
        split
        · exact avoids_operand hrun he x hxs.1
        · exact .fail nofun
      | cons y ys =>
        rw [command_many hx]
        exact .fail nofun

theorem avoids_commands (hrun : Runs run) (he : e.FunctionsSound) : ∀ {room : Nat}
    (cs : List (List Expr)) (last : Option Value), Expr.commandsFormed constant room cs = true →
      Avoids .emptyCommand (commands e run context last cs)
  | _, [], _, _ => .pure _
  | _, c :: cs, last, hcs => by
    simp only [Expr.commandsFormed, Bool.and_eq_true] at hcs
    exact .bind (avoids_command hrun he c last hcs.1.1 hcs.1.2) fun v =>
      avoids_commands hrun he cs (some v) hcs.2

end

theorem avoids_declare (name : String) (v : Value) : Avoids .emptyCommand (declare name v) :=
  .modifyState _

theorem avoids_assign (name : String) (v : Value) : Avoids .emptyCommand (assign name v) := by
  refine .getState fun s => ?_
  split
  · exact .setState _
  · exact .fail nofun

theorem avoids_bind (assigns : Bool) (v : Value) (names : List String) :
    Avoids .emptyCommand (Eval.bind assigns v names) := by
  induction names with
  | nil => exact .pure _
  | cons name names ih =>
    cases assigns with
    | false => exact .bind (avoids_declare name v) fun _ => ih
    | true => exact .bind (avoids_assign name v) fun _ => ih

/-- **A well formed pipeline** is never refused for a command without operands. -/
theorem avoids_pipeline (hrun : Runs run) (he : e.FunctionsSound) {p : Pipeline}
    (hp : p.isFormed constant room = true) : Avoids .emptyCommand (pipeline e run context p) := by
  rw [Pipeline.isFormed, Bool.and_eq_true] at hp
  exact .bind (avoids_commands hrun he p.commands none hp.2) fun _ =>
    .bind (avoids_bind _ _ _) fun _ => .pure _

/-! ## Loops -/

section Loop

variable {body otherwise : Run PUnit} (targets : List String)

theorem avoids_pass (hbody : Avoids .emptyCommand body) (key item : Value) :
    Avoids .emptyCommand (pass targets key item body) := by
  refine .guarded (.bind ?_ fun _ => hbody)
  match targets with
  | [] => exact .pure _
  | [_] => exact .modifyState _
  | [_, _] => exact .bind (.modifyState _) fun _ => .modifyState _
  | _ :: _ :: _ :: _ => exact .pure _

theorem avoids_passes (hbody : Avoids .emptyCommand body) (ps : List (Value × Value)) :
    Avoids .emptyCommand (passes targets body ps) := by
  induction ps with
  | nil => exact .pure _
  | cons p ps ih => exact .bind (avoids_pass targets hbody p.1 p.2) fun _ => ih

theorem avoids_loop (hbody : Avoids .emptyCommand body) (hother : Avoids .emptyCommand otherwise)
    (ps : Value.Pairs) : Avoids .emptyCommand (loop targets body otherwise ps) := by
  rw [loop_eq]
  split
  · exact hother
  · exact avoids_passes targets hbody ps.toList

end Loop

/-! ## Nodes -/

/-- The pipelines at some sites are well formed. -/
def SitesFormed (constant : Value → Bool) (room : Nat) (sites : List (HtmlContext × Pipeline)) :
    Prop :=
  ∀ site ∈ sites, site.2.isFormed constant room = true

/-- The subject of a branch, and what follows from its value. -/
theorem avoids_branch (hrun : Runs run) (he : e.FunctionsSound) {name : String} {line : Nat}
    {p : Pipeline} (hp : p.isFormed constant room = true) {k : Value → Run PUnit}
    (hk : ∀ v, Avoids .emptyCommand (k v)) :
    Avoids .emptyCommand (Run.inScope Scopes.pushSame do
      let v ← Run.located name line (pipeline e run .body p)
      k v) :=
  .guarded (.bind ((avoids_pipeline hrun he hp).located name line) hk)

mutual

theorem avoids_node (hrun : Runs run) (he : e.FunctionsSound) {t : Template} : ∀ n : Node,
    SitesFormed constant room n.sites → Avoids .emptyCommand (node e run t n)
  | .text s, _ => .modifyState _
  | .action line context p, hs => by
    have hp := hs (context, p) (by simp [Node.sites])
    refine .bind ((avoids_pipeline hrun he hp).located t.name line) fun v => ?_
    split
    · exact .modifyState _
    · exact .pure _
  | .cond line negated p body otherwise, hs => by
    obtain ⟨hp, hs⟩ := List.forall_mem_cons.1 hs
    obtain ⟨hbody, hother⟩ := List.forall_mem_append.1 hs
    refine avoids_branch hrun he hp fun v => ?_
    split
    · exact .guarded (avoids_nodes hrun he body hbody)
    · exact .guarded (avoids_nodes hrun he otherwise hother)
  | .range line p body otherwise, hs => by
    obtain ⟨hp, hs⟩ := List.forall_mem_cons.1 hs
    obtain ⟨hbody, hother⟩ := List.forall_mem_append.1 hs
    rw [Pipeline.isFormed, Bool.and_eq_true] at hp
    refine .located _ _ (.guarded (.bind (avoids_commands hrun he p.commands none hp.2) fun v => ?_))
    refine .bind (.lift (pairs_ne v)) fun ps => ?_
    exact avoids_loop p.targets (avoids_nodes hrun he body hbody)
      (.guarded (avoids_nodes hrun he otherwise hother)) ps
  | .scope line p body otherwise, hs => by
    obtain ⟨hp, hs⟩ := List.forall_mem_cons.1 hs
    obtain ⟨hbody, hother⟩ := List.forall_mem_append.1 hs
    refine avoids_branch hrun he hp fun v => ?_
    split
    · exact .guarded (avoids_nodes hrun he body hbody)
    · exact .guarded (avoids_nodes hrun he otherwise hother)
  | .template line name none, _ =>
    .bind (.pure _) fun dot => .bind ((hrun name dot).located t.name line) fun _ => .modifyState _
  | .template line name (some p), hs => by
    have hp := hs (.body, p) (by simp [Node.sites])
    exact .bind ((avoids_pipeline hrun he hp).located t.name line) fun dot =>
      .bind ((hrun name dot).located t.name line) fun _ => .modifyState _

theorem avoids_nodes (hrun : Runs run) (he : e.FunctionsSound) {t : Template} : ∀ ns : List Node,
    SitesFormed constant room (Node.sitesOf ns) → Avoids .emptyCommand (nodes e run t ns)
  | [], _ => .pure _
  | n :: ns, hs => by
    obtain ⟨hn, hns⟩ := List.forall_mem_append.1 hs
    exact .bind (avoids_node hrun he n hn) fun _ => avoids_nodes hrun he ns hns

end

end Eval

/-! ## Whole renderings -/

namespace Render

open Run Eval

variable {e : Environment} {constant : Value → Bool} {room : Nat}

/-- The pipelines of all templates are well formed. -/
def TemplatesFormed (constant : Value → Bool) (room : Nat) (e : Environment) : Prop :=
  ∀ name t, e.template name = .ok t → SitesFormed constant room t.sites

theorem avoids_execute {run : Runner} (hrun : Runs run) (he : e.FunctionsSound)
    (ht : TemplatesFormed constant room e) (name : String) (dot : Value) :
    Avoids .emptyCommand (execute e run name dot) := by
  refine .lift_bind (template_ne name) fun t hget => ?_
  refine .getState fun s => ?_
  split
  · exact .fail nofun
  · refine .located _ _ (.guarded (.bind (avoids_nodes hrun he t.nodes (ht name t hget)) fun _ => ?_))
    refine .getState fun s => ?_
    dsimp only
    split
    · exact .pure _
    · exact .fail nofun

theorem avoids_takeParent : Avoids .emptyCommand takeParent :=
  .getState fun _ => .bind (.setState _) fun _ => .pure _

theorem avoids_followParents {exec : Runner} (hexec : Runs exec) (name : String) (n : Nat) :
    ∀ output, Avoids .emptyCommand (followParents exec name n output) := by
  induction n with
  | zero =>
    refine fun output => .bind avoids_takeParent fun parent => ?_
    cases parent with
    | none => exact .pure output
    | some _ => exact .fail nofun
  | succ n ih =>
    refine fun output => .bind avoids_takeParent fun parent => ?_
    cases parent with
    | none => exact .pure output
    | some parent =>
      exact .bind (.modifyState _) fun _ => .getState fun s => .bind (hexec parent s.root) ih

theorem runs_runner (he : e.FunctionsSound) (ht : TemplatesFormed constant room e) (n : Nat) :
    Runs (runner e n) := by
  induction n with
  | zero => exact fun _ _ => .fail nofun
  | succ n ih =>
    have hexec : Runs (execute e (runner e n)) := avoids_execute ih he ht
    exact fun name dot =>
      .guarded (.bind (hexec name dot) fun output => avoids_followParents hexec name maxParents output)

theorem avoids_renderMain (he : e.FunctionsSound) (ht : TemplatesFormed constant room e) :
    Avoids .emptyCommand (renderMain e) := by
  have hrun : Runs (runTemplate e) := runs_runner he ht (maxDepth + 1)
  refine .getState fun s => ?_
  split
  · exact .fail nofun
  · next main _ =>
    refine .bind (.modifyState _) fun _ => ?_
    split
    · exact hrun main _
    · next layout _ =>
      exact .bind (hrun main _) fun _ => .bind (.modifyState _) fun _ => hrun layout _

end Render

namespace Environment

open Render

/-- **No rendering stops at a command without operands**, if the pipelines of all templates are well
formed. -/
theorem render_cause_ne {e : Environment} {constant : Value → Bool} {room : Nat}
    (he : e.FunctionsSound) (ht : TemplatesFormed constant room e) (c : RenderContext) {f : Fault}
    (h : (e.render c).1 = .error f) : f.cause ≠ .emptyCommand := by
  unfold render at h
  split at h
  · cases h
  · next g s hrun =>
    cases h
    exact avoids_renderMain he ht _ _ _ hrun

end Environment

end Stencil
