import Stencil.Render.State

/-!
# Invariants of computations

What a rendering never gives up is an invariant of its state: every computation leaves it standing,
whether it succeeds or fails, and says something about the value that it gives besides.

* `Run.Keeps I act Q` is that statement: from a state with `I`, the computation `act` ends in a state
  with `I`, and its value has `Q`.
* The lemmas follow the ways in which computations are put together: `Keeps.bind` for one after the
  other, `Keeps.getState` and `Keeps.modifyState` for a look at the state and a change of it, and
  `Keeps.guarded` for the scoping of the renderer, which mends the state on both ways out.
-/

namespace Stencil.Run

open Render

variable {α β : Type} {I : State → Prop} {Q : α → Prop} {R : β → Prop}

/-- A look at the state goes on with the state. -/
theorem get_bind (k : State → Run α) (s : State) : ((get : Run State) >>= k) s = k s s := rfl

/-- From states with `I` the computation ends in states with `I`, and its value has `Q`. -/
def Keeps (I : State → Prop) (act : Run α) (Q : α → Prop) : Prop :=
  ∀ s, I s → match act s with
    | .ok a t => I t ∧ Q a
    | .error _ t => I t

namespace Keeps

/-! ## Reading the statement -/

theorem ok {act : Run α} (h : Keeps I act Q) {s t : State} {a : α} (hs : I s)
    (he : act s = .ok a t) : I t ∧ Q a := by
  have := h s hs
  rw [he] at this
  exact this

theorem mono {Q' : α → Prop} {act : Run α} (h : Keeps I act Q) (hq : ∀ a, Q a → Q' a) :
    Keeps I act Q' := by
  intro s hs
  have := h s hs
  cases he : act s with
  | ok a t => rw [he] at this; exact ⟨this.1, hq a this.2⟩
  | error f t => rw [he] at this; exact this

/-- Every computation ends in some state with some value. -/
theorem any (act : Run α) : Keeps (fun _ => True) act fun _ => True := by
  intro s _
  cases act s with
  | ok a t => exact ⟨trivial, trivial⟩
  | error f t => trivial

/-! ## One computation after the other -/

theorem pure {a : α} (h : Q a) : Keeps I (Pure.pure a : Run α) Q := fun _ hs => ⟨hs, h⟩

theorem bind {act : Run α} {k : α → Run β} (h : Keeps I act Q)
    (hk : ∀ a, Q a → Keeps I (k a) R) : Keeps I (act >>= k) R := by
  intro s hs
  have hact := h s hs
  change match EStateM.bind act k s with | .ok b t => I t ∧ R b | .error _ t => I t
  unfold EStateM.bind
  cases he : act s with
  | ok a t =>
    rw [he] at hact
    exact hk a hact.2 t hact.1
  | error f t =>
    rw [he] at hact
    exact hact

/-- A computation whose value does not matter before another one. -/
theorem seq {act : Run α} {k : α → Run β} (h : Keeps I act fun _ => True)
    (hk : ∀ a, Keeps I (k a) R) : Keeps I (act >>= k) R :=
  h.bind fun a _ => hk a

theorem fail (c : Cause) : Keeps I (Run.fail c : Run α) Q := fun _ hs => hs

theorem attempt {r : Except Fault α} (h : ∀ a, r = .ok a → Q a) : Keeps I (Run.attempt r) Q := by
  cases r with
  | ok a => exact pure (h a rfl)
  | error f => exact fun _ hs => hs

theorem lift {o : Outcome α} (h : ∀ a, o = .ok a → Q a) : Keeps I (Run.lift o) Q :=
  attempt fun a ha => h a (Outcome.raised_eq_ok.1 ha)

/-! ## The state -/

/-- The state that is looked at has the invariant. -/
theorem getState {k : State → Run β} (h : ∀ s, I s → Keeps I (k s) R) :
    Keeps I ((MonadState.get : Run State) >>= k) R :=
  fun s hs => h s hs s hs

theorem setState {s : State} (h : I s) : Keeps I (MonadStateOf.set s : Run PUnit) fun _ => True :=
  fun _ _ => ⟨h, trivial⟩

theorem modifyState {f : State → State} (h : ∀ s, I s → I (f s)) :
    Keeps I (modify f : Run PUnit) fun _ => True :=
  fun s hs => ⟨h s hs, trivial⟩

/-! ## Places and scopes -/

theorem located {act : Run α} (template : String) (line : Nat) (h : Keeps I act Q) :
    Keeps I (Run.located template line act) Q := by
  intro s hs
  have hact := h s hs
  unfold Run.located
  cases he : act s with
  | ok a t => rw [he] at hact; exact hact
  | error f t => rw [he] at hact; exact hact

theorem guarded {enter : State → State} {leave : State → State → State} {act : Run α}
    (henter : ∀ s, I s → I (enter s)) (hleave : ∀ s t, I s → I t → I (leave s t))
    (h : Keeps I act Q) : Keeps I (Run.guarded enter leave act) Q := by
  intro s hs
  have hact := h (enter s) (henter s hs)
  unfold Run.guarded
  cases he : act (enter s) with
  | ok a t => rw [he] at hact; exact ⟨hleave s t hs hact.1, hact.2⟩
  | error f t => rw [he] at hact; exact hleave s t hs hact

end Keeps

end Stencil.Run
