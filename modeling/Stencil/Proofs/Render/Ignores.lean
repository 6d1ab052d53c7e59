import Stencil.Proofs.Render.Alike

/-!
# Computations that ignore a part of the context

A computation ignores a change of the render context if the changed context makes no difference to it:
it gives the same value or fails with the same fault, and it ends in the same state up to that change.

* `Run.Ignores C g act` is that statement for the change `g`, on contexts with `C`.
* `Run.Changed C g` relates a state to the one with the changed context, and `Run.ignores_iff` says that
  a computation that ignores the change does alike from the two.
* `Eval.ignores_node` passes the statement from the calls of pipelines to nodes. Nodes look at the
  context in calls only, so nothing is asked of the change itself.
-/

namespace Stencil

/-- The state with a changed context. -/
def Render.State.mapContext (g : RenderContext → RenderContext) (s : Render.State) : Render.State :=
  { s with context := g s.context }

namespace Run

open Render

variable {α β : Type} {C : RenderContext → Prop} {g : RenderContext → RenderContext}

/-- One computation ends from the state as the other does from the state with the changed context. -/
def AgreesAt (C : RenderContext → Prop) (g : RenderContext → RenderContext) (s : State)
    (act act' : Run α) : Prop :=
  match act s with
  | .ok a t => C t.context ∧ act' (s.mapContext g) = .ok a (t.mapContext g)
  | .error f t => C t.context ∧ act' (s.mapContext g) = .error f (t.mapContext g)

/-- On states whose context has `C`, the computation does not notice the change `g` of the context,
and it ends in such states. -/
def Ignores (C : RenderContext → Prop) (g : RenderContext → RenderContext) (act : Run α) : Prop :=
  ∀ s, C s.context → AgreesAt C g s act act

/-- A state whose context has `C`, and the state with the changed context. -/
def Changed (C : RenderContext → Prop) (g : RenderContext → RenderContext) (s s' : State) : Prop :=
  C s.context ∧ s' = s.mapContext g

theorem congruence_changed : Congruence (Changed C g) where
  scopes := by rintro _ _ ⟨-, rfl⟩; rfl
  output := by rintro _ _ ⟨-, rfl⟩; rfl
  parent := by rintro _ _ ⟨-, rfl⟩; rfl
  setScopes := by rintro _ _ ⟨hs, rfl⟩ _; exact ⟨hs, rfl⟩
  setOutput := by rintro _ _ ⟨hs, rfl⟩ _; exact ⟨hs, rfl⟩
  setParent := by rintro _ _ ⟨hs, rfl⟩ _; exact ⟨hs, rfl⟩
  emit := by rintro _ _ ⟨hs, rfl⟩ _; exact ⟨hs, rfl⟩

theorem nested_changed : Nested (Changed C g) (Changed C g) where
  depth := by rintro _ _ ⟨-, rfl⟩; rfl
  enter := by rintro _ _ ⟨hs, rfl⟩ _; exact ⟨hs, rfl⟩
  leave := by rintro _ _ _ _ ⟨-, rfl⟩ ⟨ht, rfl⟩; exact ⟨ht, rfl⟩

theorem agreesAt_iff {s : State} {act act' : Run α} :
    AgreesAt C g s act act' ↔ SameEnd (Changed C g) (act s) (act' (s.mapContext g)) := by
  unfold AgreesAt
  constructor
  · intro h
    cases he : act s with
    | ok a t =>
      rw [he] at h
      rw [h.2]
      exact .ok ⟨h.1, rfl⟩
    | error f t =>
      rw [he] at h
      rw [h.2]
      exact .error ⟨h.1, rfl⟩
  · intro h
    generalize act s = r at h ⊢
    generalize act' (s.mapContext g) = r' at h ⊢
    cases h with
    | ok ht => exact ⟨ht.1, congrArg _ ht.2⟩
    | error ht => exact ⟨ht.1, congrArg _ ht.2⟩

theorem ignores_iff {act : Run α} : Ignores C g act ↔ Alike (Changed C g) act act := by
  constructor
  · rintro h s _ ⟨hs, rfl⟩
    exact agreesAt_iff.1 (h s hs)
  · exact fun h s hs => agreesAt_iff.2 (h s _ ⟨hs, rfl⟩)

namespace Ignores

/-! ## One computation after the other -/

theorem pure (a : α) : Ignores C g (Pure.pure a : Run α) := ignores_iff.2 (.pure a)

theorem fail (c : Cause) : Ignores C g (Run.fail c : Run α) := ignores_iff.2 (.fail c)

theorem attempt (r : Except Fault α) : Ignores C g (Run.attempt r) := ignores_iff.2 (.attempt r)

theorem lift (o : Outcome α) : Ignores C g (Run.lift o) := attempt o.raised

/-- One computation after another, which may count on what is known of the value. -/
theorem bindOf {Q : α → Prop} {act : Run α} {k : α → Run β} (h : Ignores C g act)
    (hq : Keeps (fun _ => True) act Q) (hk : ∀ a, Q a → Ignores C g (k a)) :
    Ignores C g (act >>= k) :=
  ignores_iff.2 (.bindOf (ignores_iff.1 h) hq fun a ha => ignores_iff.1 (hk a ha))

theorem bind {act : Run α} {k : α → Run β} (h : Ignores C g act) (hk : ∀ a, Ignores C g (k a)) :
    Ignores C g (act >>= k) :=
  h.bindOf (Keeps.any act) fun a _ => hk a

/-! ## The state -/

/-- What is done with the state that is looked at agrees with what is done with the changed one. -/
theorem getAt {k : State → Run β}
    (h : ∀ s, C s.context → AgreesAt C g s (k s) (k (s.mapContext g))) :
    Ignores C g ((MonadState.get : Run State) >>= k) :=
  h

/-- What is done with the state that is looked at is the same for the changed state. -/
theorem getState {k : State → Run β} (heq : ∀ s, C s.context → k (s.mapContext g) = k s)
    (hk : ∀ s, C s.context → Ignores C g (k s)) :
    Ignores C g ((MonadState.get : Run State) >>= k) := by
  refine getAt fun s hs => ?_
  rw [heq s hs]
  exact hk s hs s hs

theorem modifyState {f : State → State} (hcontext : ∀ s, C s.context → C (f s).context)
    (hcomm : ∀ s, f (s.mapContext g) = (f s).mapContext g) :
    Ignores C g (modify f : Run PUnit) := by
  refine ignores_iff.2 (.modifyState ?_)
  rintro s _ ⟨hs, rfl⟩
  exact ⟨hcontext s hs, hcomm s⟩

theorem emit (ev : Event) : Ignores C g (Run.emit ev) :=
  ignores_iff.2 (congruence_changed.alike_emit ev)

theorem write (text : String) : Ignores C g (Run.write text) :=
  ignores_iff.2 (congruence_changed.alike_write text)

end Ignores

end Run

namespace Eval

open Render Run

variable {C : RenderContext → Prop} {g : RenderContext → RenderContext} {e : Environment}
  {run : Runner}

/-- The calls ignore the change, with all arguments that they may get. -/
def CallsIgnore (C : RenderContext → Prop) (g : RenderContext → RenderContext) (e : Environment)
    (run : Runner) (context : HtmlContext) (calls : List (String × FirstArgument)) : Prop :=
  ∀ c ∈ calls, ∀ args, c.2.Admits args → Ignores C g (call e run context c.1 args)

theorem CallsIgnore.alike {context : HtmlContext} {calls : List (String × FirstArgument)}
    (h : CallsIgnore C g e run context calls) : CallsAlike (Changed C g) e run run context calls :=
  fun c hc args hargs => ignores_iff.1 (h c hc args hargs)

/-- The calls of all pipelines at some sites ignore the change. -/
def SitesIgnore (C : RenderContext → Prop) (g : RenderContext → RenderContext) (e : Environment)
    (run : Runner) (sites : List (HtmlContext × Pipeline)) : Prop :=
  ∀ site ∈ sites, CallsIgnore C g e run site.1 site.2.calls

theorem SitesIgnore.alike {sites : List (HtmlContext × Pipeline)}
    (h : SitesIgnore C g e run sites) : SitesAlike (Changed C g) e run run sites :=
  fun site hsite => (h site hsite).alike

theorem ignores_node (hrun : ∀ name dot, Ignores C g (run name dot)) (t : Template) (n : Node)
    (h : SitesIgnore C g e run n.sites) : Ignores C g (node e run t n) :=
  ignores_iff.2 <|
    alike_node congruence_changed (fun name dot => ignores_iff.1 (hrun name dot)) t n h.alike

end Eval

end Stencil
