import Stencil.Render.State

/-!
# How computations end

What a computation ends with, from what its parts end with; and the other way round, what its parts have
ended with.
-/

namespace Stencil.Run

open Render

variable {α β : Type} {act : Run α} {k : α → Run β} {s u : State} {a : α} {b : β} {f : Fault}

/-! ## One computation after the other -/

/-- A computation behind one that succeeds. -/
theorem bind_ok (h : act s = .ok a u) (k : α → Run β) : (act >>= k) s = k a u := by
  change EStateM.bind act k s = _
  unfold EStateM.bind
  rw [h]

theorem bind_error (h : act s = .error f u) (k : α → Run β) : (act >>= k) s = .error f u := by
  change EStateM.bind act k s = _
  unfold EStateM.bind
  rw [h]

theorem bind_eq_ok (h : (act >>= k) s = .ok b u) : ∃ a v, act s = .ok a v ∧ k a v = .ok b u := by
  cases hact : act s with
  | ok a v => exact ⟨a, v, rfl, (bind_ok hact k).symm.trans h⟩
  | error f v =>
    rw [bind_error hact] at h
    exact nomatch h

theorem bind_eq_error (h : (act >>= k) s = .error f u) :
    act s = .error f u ∨ ∃ a v, act s = .ok a v ∧ k a v = .error f u := by
  cases hact : act s with
  | ok a v => exact .inr ⟨a, v, rfl, (bind_ok hact k).symm.trans h⟩
  | error g v =>
    rw [bind_error hact] at h
    cases h
    exact .inl rfl

/-- A computation without a state fails with its own fault. -/
theorem attempt_eq_error {r : Except Fault α} (h : attempt r s = .error f u) : r = .error f := by
  cases r with
  | ok a => exact nomatch h
  | error g =>
    cases h
    rfl

/-! ## Places -/

section Located

variable {template : String} {line : Nat}

theorem located_ok (h : act s = .ok a u) : located template line act s = .ok a u := by
  unfold located
  rw [h]

theorem located_error (h : act s = .error f u) :
    located template line act s = .error (f.atPlace template line) u := by
  unfold located
  rw [h]

/-- A place shows the end of its computation. -/
theorem located_congr {act' : Run α} (h : act s = act' s) :
    located template line act s = located template line act' s := by
  unfold located
  rw [h]

theorem located_eq_ok (h : located template line act s = .ok a u) : act s = .ok a u := by
  cases hact : act s with
  | ok b v => exact (located_ok hact).symm.trans h
  | error g v =>
    rw [located_error hact] at h
    exact nomatch h

theorem located_eq_error (h : located template line act s = .error f u) :
    ∃ g, act s = .error g u ∧ f = g.atPlace template line := by
  cases hact : act s with
  | ok b v =>
    rw [located_ok hact] at h
    exact nomatch h
  | error g v =>
    rw [located_error hact] at h
    cases h
    exact ⟨g, rfl, rfl⟩

end Located

/-! ## Scopes -/

section Guarded

variable {enter : State → State} {leave : State → State → State}

theorem guarded_ok (h : act (enter s) = .ok a u) :
    guarded enter leave act s = .ok a (leave s u) := by
  unfold guarded
  rw [h]

theorem guarded_error (h : act (enter s) = .error f u) :
    guarded enter leave act s = .error f (leave s u) := by
  unfold guarded
  rw [h]

theorem guarded_eq_ok (h : guarded enter leave act s = .ok a u) :
    ∃ v, act (enter s) = .ok a v ∧ u = leave s v := by
  cases hact : act (enter s) with
  | ok b v =>
    rw [guarded_ok hact] at h
    cases h
    exact ⟨v, rfl, rfl⟩
  | error g v =>
    rw [guarded_error hact] at h
    exact nomatch h

theorem guarded_eq_error (h : guarded enter leave act s = .error f u) :
    ∃ v, act (enter s) = .error f v ∧ u = leave s v := by
  cases hact : act (enter s) with
  | ok b v =>
    rw [guarded_ok hact] at h
    exact nomatch h
  | error g v =>
    rw [guarded_error hact] at h
    cases h
    exact ⟨v, rfl, rfl⟩

end Guarded

section Scope

variable {enter : Scopes → Scopes}

theorem inScope_ok (h : act { s with scopes := enter s.scopes } = .ok a u) :
    inScope enter act s = .ok a { u with scopes := u.scopes.tail } := guarded_ok h

theorem inScope_error (h : act { s with scopes := enter s.scopes } = .error f u) :
    inScope enter act s = .error f { u with scopes := u.scopes.tail } := guarded_error h

theorem inScope_eq_ok (h : inScope enter act s = .ok a u) :
    ∃ v, act { s with scopes := enter s.scopes } = .ok a v ∧
      u = { v with scopes := v.scopes.tail } := guarded_eq_ok h

theorem inScope_eq_error (h : inScope enter act s = .error f u) :
    ∃ v, act { s with scopes := enter s.scopes } = .error f v ∧
      u = { v with scopes := v.scopes.tail } := guarded_eq_error h

/-- A scope shows its computation from the state in which it is open. -/
theorem inScope_congr {act' : Run α}
    (h : act { s with scopes := enter s.scopes } = act' { s with scopes := enter s.scopes }) :
    inScope enter act s = inScope enter act' s := by
  cases hact : act { s with scopes := enter s.scopes } with
  | ok a u => rw [inScope_ok hact, inScope_ok (h.symm.trans hact)]
  | error f u => rw [inScope_error hact, inScope_error (h.symm.trans hact)]

end Scope

end Stencil.Run
