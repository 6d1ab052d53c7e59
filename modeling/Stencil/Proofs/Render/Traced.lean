import Stencil.Proofs.Render.Evaluation

/-!
# Computations with a trail

A computation can be written down a second time so that it leaves a trail of what it comes across,
which is there also if it fails. Without the trail it is the computation that it was.

* `Traced` are the computations, and `Traced.run` takes the trail away again.
* `Traced.guarded` scopes a computation and `Traced.bracket` puts an entry on either side of it.
* `Traced.loop` is a loop, and `Traced.run_loop` says that the trail changes nothing else in it.
-/

namespace Stencil

namespace Run

open Render

variable {α : Type}

/-- The state that a computation ends in, whether it succeeds or fails. -/
def final (act : Run α) (s : State) : State :=
  match act s with
  | .ok _ t => t
  | .error _ t => t

theorem final_of_ok {act : Run α} {s t : State} {a : α} (h : act s = .ok a t) : act.final s = t := by
  unfold final
  rw [h]

theorem final_of_error {act : Run α} {s t : State} {f : Fault} (h : act s = .error f t) :
    act.final s = t := by
  unfold final
  rw [h]

end Run

/-- A computation with what it comes across. -/
def Traced (μ α : Type) : Type := Render.State → EStateM.Result Fault Render.State α × List μ

namespace Traced

open Render

variable {μ α β : Type}

/-- The computation without its trail. -/
def run (act : Traced μ α) : Run α := fun s => (act s).1

/-- A computation that comes across nothing. -/
def quiet (act : Run α) : Traced μ α := fun s => (act s, [])

/-- Comes across something. -/
def visit (v : μ) : Traced μ PUnit := fun s => (.ok ⟨⟩ s, [v])

/-- A computation that is itself what is come across, in the state that it starts in. -/
def noted (entry : State → μ) (act : Run α) : Traced μ α := fun s => (act s, [entry s])

/-- One computation after the other. -/
def andThen (act : Traced μ α) (k : α → Traced μ β) : Traced μ β := fun s =>
  match act s with
  | (.ok a t, trail) => ((k a t).1, trail ++ (k a t).2)
  | (.error f t, trail) => (.error f t, trail)

instance : Monad (Traced μ) where
  pure a := quiet (Pure.pure a)
  bind := andThen

/-- Attaches a place to the fault of a computation. -/
def located (template : String) (line : Nat) (act : Traced μ α) : Traced μ α := fun s =>
  (Run.located template line act.run s, (act s).2)

/-- Runs a computation on a changed state and mends the state that it leaves. -/
def guarded (enter : State → State) (leave : State → State → State) (act : Traced μ α) :
    Traced μ α := fun s =>
  (Run.guarded enter leave act.run s, (act (enter s)).2)

/-- Runs a computation in a scope of its own. -/
def inScope (enter : Scopes → Scopes) (act : Traced μ α) : Traced μ α :=
  guarded (fun s => { s with scopes := enter s.scopes })
    (fun _ t => { t with scopes := t.scopes.tail }) act

/-- Scopes a computation, with an entry for the state on which it is entered and one for the state in
which it is left. -/
def bracket (first last : State → μ) (enter : State → State) (leave : State → State → State)
    (act : Traced μ α) : Traced μ α := fun s =>
  (Run.guarded enter leave act.run s,
    first s :: ((act (enter s)).2 ++ [last (act.run.final (enter s))]))

/-! ## The trail changes nothing -/

theorem run_inScope (enter : Scopes → Scopes) (act : Traced μ α) :
    (inScope enter act).run = Run.inScope enter act.run := rfl

theorem run_bind (act : Traced μ α) (k : α → Traced μ β) :
    (act >>= k).run = act.run >>= fun a => (k a).run := by
  funext s
  change (andThen act k s).1 = EStateM.bind act.run (fun a => (k a).run) s
  unfold andThen EStateM.bind run
  rcases act s with ⟨a | f, trail⟩
  · rfl
  · rfl

/-! ## Loops -/

/-- One pass of a loop. -/
def pass (targets : List String) (key item : Value) (body : Traced μ PUnit) : Traced μ PUnit :=
  Traced.inScope (Scopes.push item) do
    quiet (Eval.bindPair key item targets)
    body

/-- The passes over a list of pairs. -/
def passes (targets : List String) (body : Traced μ PUnit) : List (Value × Value) → Traced μ PUnit
  | [] => pure ()
  | (key, item) :: ps => do
    pass targets key item body
    passes targets body ps

/-- The passes over `n` numbers from `i` on. -/
def passesFrom (targets : List String) (body : Traced μ PUnit) (i : Nat) : Nat → Traced μ PUnit
  | 0 => pure ()
  | n + 1 => do
    pass targets (.int i) (.int i) body
    passesFrom targets body (i + 1) n

/-- Runs the body for all pairs, or else the other nodes if there is none. -/
def loop (targets : List String) (body otherwise : Traced μ PUnit) : Value.Pairs → Traced μ PUnit
  | .listed [] => otherwise
  | .below 0 => otherwise
  | .listed ps => passes targets body ps
  | .below n => passesFrom targets body 0 n

section Loop

variable (targets : List String) {body : Traced μ PUnit}

theorem run_pass (key item : Value) :
    (pass targets key item body).run = Eval.pass targets key item body.run := by
  change Run.inScope _ (quiet (Eval.bindPair key item targets) >>= fun _ => body).run = _
  rw [run_bind]
  rfl

theorem run_passes (ps : List (Value × Value)) :
    (passes targets body ps).run = Eval.passes targets body.run ps := by
  induction ps with
  | nil => rfl
  | cons p ps ih => rw [passes, run_bind, run_pass, Eval.passes, ih]

theorem passesFrom_eq (i n : Nat) : passesFrom targets body i n =
    passes targets body ((List.range' i n).map fun j : Nat => (.int j, .int j)) := by
  induction n generalizing i with
  | zero => rfl
  | succ n ih => rw [passesFrom, ih, List.range'_succ, List.map_cons, passes]

/-- A loop has one pass for each element. -/
theorem loop_eq (otherwise : Traced μ PUnit) (ps : Value.Pairs) :
    loop targets body otherwise ps =
      if ps.toList = [] then otherwise else passes targets body ps.toList := by
  match ps with
  | .listed [] => rfl
  | .below 0 => rfl
  | .listed (p :: ps) => rfl
  | .below (n + 1) =>
    have hne : (Value.Pairs.below (n + 1)).toList ≠ [] := by simp [Value.Pairs.toList]
    rw [if_neg hne, Value.Pairs.toList, List.range_eq_range']
    exact passesFrom_eq targets 0 (n + 1)

theorem run_loop (otherwise : Traced μ PUnit) (ps : Value.Pairs) :
    (loop targets body otherwise ps).run = Eval.loop targets body.run otherwise.run ps := by
  rw [loop_eq, Eval.loop_eq]
  split
  · rfl
  · exact run_passes targets ps.toList

end Loop

end Traced

end Stencil
