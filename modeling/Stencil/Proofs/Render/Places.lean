import Stencil.Proofs.Entries
import Stencil.Proofs.Render.Ends
import Stencil.Render.Basic

/-!
# The places of faults

A fault keeps the first place that it is given. What the evaluator itself refuses has none at first;
only the functions of an environment may fail with a fault that has a place already.

* `Fault.IsAt` says where a fault is, if anywhere, and `Fault.within` gives it a place from outside.
* `Environment.Raises` are the faults that can arise, and `Environment.Placeless` says of an environment
  that its functions give no places either; `Environment.placeless_standard` says so of those with the
  functions of a new one.
* `Run.Bare` are the computations whose faults arise where they run. The steps that evaluate a pipeline
  are of this kind as far as they run no template: `Eval.bare_lookup`, `Eval.bare_bind` and the others.
-/

namespace Stencil

namespace Fault

/-- The template and the line of a fault; without a template there is no line either. -/
structure IsAt (f : Fault) (p : Option (String × Nat)) : Prop where
  template : f.template = p.map (·.1)
  line : f.line = (p.map (·.2)).getD 0

/-- The fault as it is outside of a place, if there is one around it. -/
def within (p : Option (String × Nat)) (f : Fault) : Fault :=
  match p with
  | none => f
  | some (template, line) => f.atPlace template line

variable {f : Fault} {p : Option (String × Nat)} {q : String × Nat}

theorem isAt_of_cause (c : Cause) : IsAt { cause := c } none := ⟨rfl, rfl⟩

/-- A fault without a place has the one that it is given. -/
theorem IsAt.within (h : f.IsAt none) : (f.within p).IsAt p := by
  cases p with
  | none => exact h
  | some q =>
    have heq : f.within (some q) = { f with template := some q.1, line := q.2 } := by
      change f.atPlace q.1 q.2 = _
      rw [atPlace, h.template]
      exact if_pos h.line
    rw [heq]
    exact ⟨rfl, rfl⟩

/-- Only the first place counts. -/
theorem within_within (f : Fault) (q : String × Nat) (p : Option (String × Nat)) :
    (f.within (some q)).within p = f.within (some q) := by
  have htemplate : ∃ name, (f.within (some q)).template = some name := by
    change ∃ name, (f.atPlace q.1 q.2).template = some name
    unfold atPlace atLine
    split
    · next name h => exact ⟨name, h⟩
    · split <;> exact ⟨q.1, rfl⟩
  obtain ⟨name, hname⟩ := htemplate
  cases p with
  | none => rfl
  | some p =>
    change (f.within (some q)).atPlace p.1 p.2 = _
    rw [atPlace, hname]

end Fault

namespace Environment

/-- A fault that can arise: it has no place, unless a function of the environment fails with it. -/
def Raises (e : Environment) (f : Fault) : Prop :=
  f.IsAt none ∨ ∃ name g args, Table.get? name e.functions = some g ∧ g args = .error f

/-- The faults of the functions have no place. -/
def Placeless (e : Environment) : Prop :=
  ∀ name g args f, Table.get? name e.functions = some g → g args = .error f → f.IsAt none

theorem raises_of_cause (e : Environment) (c : Cause) : e.Raises { cause := c } :=
  .inl (Fault.isAt_of_cause c)

theorem Placeless.isAt {e : Environment} (he : e.Placeless) {f : Fault} (h : e.Raises f) :
    f.IsAt none := by
  rcases h with h | ⟨name, g, args, hg, hf⟩
  · exact h
  · exact he name g args f hg hf

/-- The functions that there are from the start fail with causes alone. -/
theorem placeless_standard {e : Environment} (h : e.functions = Function.standard) : e.Placeless := by
  intro name g args f hg hf
  rw [h] at hg
  obtain ⟨b, -, rfl⟩ := Function.exists_of_mem_standard (Table.mem_of_get? hg)
  obtain ⟨c, -, rfl⟩ := Outcome.raised_eq_error.1 hf
  exact Fault.isAt_of_cause c

end Environment

namespace Run

open Render

variable {α β : Type} {e : Environment}

/-- The faults of the computation are some that can arise, as they arose. -/
def Bare (e : Environment) (act : Run α) : Prop := ∀ s f t, act s = .error f t → e.Raises f

namespace Bare

theorem pure (a : α) : Bare e (Pure.pure a : Run α) := fun _ _ _ h => nomatch h

theorem fail (c : Cause) : Bare e (Run.fail c : Run α) := fun _ _ _ h => by
  cases h
  exact e.raises_of_cause c

/-- A function of the environment is applied. -/
theorem attempt {name : String} {f : Function} (h : Table.get? name e.functions = some f)
    (args : List Value) : Bare e (Run.attempt (f args)) :=
  fun _ _ _ he => .inr ⟨name, f, args, h, attempt_eq_error he⟩

theorem lift (o : Outcome α) : Bare e (Run.lift o) := by
  intro s f t he
  obtain ⟨c, -, rfl⟩ := Outcome.raised_eq_error.1 (attempt_eq_error he)
  exact e.raises_of_cause c

theorem get : Bare e (MonadState.get : Run State) := fun _ _ _ h => nomatch h

theorem set (s : State) : Bare e (MonadStateOf.set s : Run PUnit) := fun _ _ _ h => nomatch h

theorem modify (g : State → State) : Bare e (modify g : Run PUnit) := fun _ _ _ h => nomatch h

theorem bind {act : Run α} {k : α → Run β} (h : Bare e act) (hk : ∀ a, Bare e (k a)) :
    Bare e (act >>= k) := by
  intro s f t he
  rcases bind_eq_error he with hact | ⟨a, u, -, hnext⟩
  · exact h s f t hact
  · exact hk a u f t hnext

theorem getState {k : State → Run β} (h : ∀ s, Bare e (k s)) :
    Bare e ((MonadState.get : Run State) >>= k) := bind get h

end Bare

end Run

namespace Eval

open Run

variable {e : Environment}

theorem bare_lookup (name : String) : Bare e (lookup name) := by
  refine .getState fun s => ?_
  split
  · exact .pure _
  · exact .fail _

theorem bare_declare (name : String) (v : Value) : Bare e (declare name v) := .modify _

theorem bare_assign (name : String) (v : Value) : Bare e (assign name v) := by
  refine .getState fun s => ?_
  split
  · exact .set _
  · exact .fail _

theorem bare_bind (assigns : Bool) (v : Value) (names : List String) :
    Bare e (Eval.bind assigns v names) := by
  induction names with
  | nil => exact .pure _
  | cons name names ih =>
    cases assigns with
    | false => exact .bind (bare_declare name v) fun _ => ih
    | true => exact .bind (bare_assign name v) fun _ => ih

theorem bare_bindPair (key item : Value) (targets : List String) :
    Bare e (bindPair key item targets) := by
  match targets with
  | [] => exact .pure _
  | [x] => exact bare_declare x item
  | [k, x] => exact .bind (bare_declare k key) fun _ => bare_declare x item
  | _ :: _ :: _ :: _ => exact .pure _

theorem bare_closeBlock : Bare e closeBlock := by
  refine .getState fun s => ?_
  dsimp only
  split
  · exact .fail _
  · split
    · exact .bind (.set _) fun _ => .modify _
    · exact .bind (.set _) fun _ => .modify _
  · exact .set _

end Eval

theorem Render.bare_finished {e : Environment} : finished.Bare e := by
  refine .getState fun s => ?_
  dsimp only
  split
  · exact .pure _
  · exact .fail _

end Stencil
