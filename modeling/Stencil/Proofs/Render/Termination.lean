import Mathlib
import Stencil.Proofs.Render.Alike
import Stencil.Proofs.Render.Control

/-!
# Every rendering ends

Templates may run one another and themselves. What ends the recursion are the limits of the renderer
alone: the room that `runner` is given does not matter, as long as it exceeds the limit on the depth.

* `Run.Agree` relates two computations that do the same in the states of a depth and leave it as it is,
  which is to do alike from two states that are the same (`Run.agree_iff`).
* `Render.agree_unfolded` says that what runs templates one level deeper decides what happens, and at
  the limit nothing does; `Render.iterate_unfolded` concludes that the innermost runner is never used.
* `Environment.every_render_ends` puts these together with the limits.
-/

namespace Stencil

open Render

/-! ## Computations that agree -/

namespace Run

variable {α β : Type} {d : Nat}

/-- In the states of a depth the two computations do the same, and leave the depth as it is. -/
def Agree (d : Nat) (act act' : Run α) : Prop :=
  ∀ s, s.depth = d → act s = act' s ∧ (act.final s).depth = d

/-- The states are the same, and of a depth. -/
def SameAt (d : Nat) (s s' : State) : Prop := s' = s ∧ s.depth = d

theorem congruence_sameAt : CallCongruence (SameAt d) where
  scopes := by rintro _ _ ⟨rfl, -⟩; rfl
  output := by rintro _ _ ⟨rfl, -⟩; rfl
  parent := by rintro _ _ ⟨rfl, -⟩; rfl
  setScopes := by rintro _ _ ⟨rfl, hs⟩ _; exact ⟨rfl, hs⟩
  setOutput := by rintro _ _ ⟨rfl, hs⟩ _; exact ⟨rfl, hs⟩
  setParent := by rintro _ _ ⟨rfl, hs⟩ _; exact ⟨rfl, hs⟩
  emit := by rintro _ _ ⟨rfl, hs⟩ _; exact ⟨rfl, hs⟩
  main := by rintro _ _ ⟨rfl, -⟩; rfl
  mainContent := by rintro _ _ ⟨rfl, -⟩; rfl
  root := by rintro _ _ ⟨rfl, -⟩; rfl
  yields := by rintro _ _ ⟨rfl, -⟩; rfl
  blocks := by rintro _ _ ⟨rfl, -⟩; rfl
  setYields := by rintro _ _ ⟨rfl, hs⟩ _; exact ⟨rfl, hs⟩
  setBlocks := by rintro _ _ ⟨rfl, hs⟩ _; exact ⟨rfl, hs⟩

theorem nested_sameAt : Nested (SameAt d) (SameAt (d + 1)) where
  depth := by rintro _ _ ⟨rfl, -⟩; rfl
  enter := by rintro _ _ ⟨rfl, hs⟩ _; exact ⟨rfl, congrArg (· + 1) hs⟩
  leave := by rintro _ _ _ _ ⟨rfl, -⟩ ⟨rfl, ht⟩; exact ⟨rfl, congrArg (· - 1) ht⟩

theorem agree_iff {act act' : Run α} : Agree d act act' ↔ Alike (SameAt d) act act' := by
  constructor
  · rintro h _ s ⟨rfl, hs⟩
    obtain ⟨heq, hfinal⟩ := h s hs
    rw [← heq]
    cases he : act s with
    | ok a t =>
      rw [final_of_ok he] at hfinal
      exact .ok ⟨rfl, hfinal⟩
    | error f t =>
      rw [final_of_error he] at hfinal
      exact .error ⟨rfl, hfinal⟩
  · intro h s hs
    have hact := h s s ⟨rfl, hs⟩
    unfold Run.final
    generalize act s = r at hact ⊢
    generalize act' s = r' at hact ⊢
    cases hact with
    | ok ht =>
      obtain ⟨rfl, ht⟩ := ht
      exact ⟨rfl, ht⟩
    | error ht =>
      obtain ⟨rfl, ht⟩ := ht
      exact ⟨rfl, ht⟩

end Run

/-! ## The recursion from template to template -/

namespace Render

open Run

/-- Runs a template, with the runner that is given for the templates that run inside it. -/
def unfolded (e : Environment) (run : Runner) : Runner := runChain (execute e run)

variable {e : Environment} {d : Nat}

/-- At the limit no template is run, so that it does not matter how it would be. -/
theorem agree_unfolded {run run' : Runner}
    (hrun : d < maxDepth → ∀ name dot, Agree (d + 1) (run name dot) (run' name dot)) (name : String)
    (dot : Value) : Agree d (unfolded e run name dot) (unfolded e run' name dot) := by
  refine agree_iff.2 (alike_chain congruence_sameAt.chain (fun _ _ => congruence_sameAt.root)
    (fun name dot => ?_) name dot)
  refine alike_execute nested_sameAt congruence_sameAt.toCongruence ?_ dot
  rintro s _ ⟨rfl, hs⟩ hdepth t -
  have hinside (name : String) (dot : Value) :
      Alike (SameAt (d + 1)) (run name dot) (run' name dot) := agree_iff.1 (hrun (hs ▸ hdepth) name dot)
  refine Eval.alike_nodes congruence_sameAt.toCongruence hinside t t.nodes fun _ _ c _ args _ => ?_
  refine Eval.alike_call hinside congruence_sameAt e c.1 (fun _ => ?_) args
  rintro s _ ⟨rfl, -⟩
  rfl

/-- Runners that are unfolded beyond the limit agree, whatever they are. -/
theorem agree_iterate (run run' : Runner) : ∀ n d, 1 ≤ n → maxDepth < n + d → ∀ name dot,
    Agree d ((unfolded e)^[n] run name dot) ((unfolded e)^[n] run' name dot) := by
  intro n
  induction n with
  | zero => exact fun _ h => absurd h (by decide)
  | succ n ih =>
    intro d _ hroom name dot
    rw [Function.iterate_succ_apply', Function.iterate_succ_apply']
    -- the templates inside have one unfolding less, and one level less up to the limit
    exact agree_unfolded (fun hd => ih (d + 1) (by omega) (by omega)) name dot

theorem iterate_unfolded {n : Nat} (hn : maxDepth < n) (run run' : Runner) :
    (unfolded e)^[n] run = (unfolded e)^[n] run' := by
  funext name dot s
  exact (agree_iterate run run' n s.depth (by omega) (by omega) name dot s rfl).1

theorem runner_eq_iterate (e : Environment) (room : Nat) :
    runner e room = (unfolded e)^[room] fun _ _ => Run.fail .recursionLimit := by
  induction room with
  | zero => rfl
  | succ room ih =>
    rw [Function.iterate_succ_apply', ← ih]
    rfl

/-- Templates are run as they are with the recursion unfolded any number of times beyond the limit. -/
theorem runTemplate_eq {n : Nat} (hn : maxDepth < n) (run : Runner) :
    (unfolded e)^[n] run = runTemplate e := by
  have hfixed (run : Runner) : unfolded e ((unfolded e)^[maxDepth + 1] run) =
      (unfolded e)^[maxDepth + 1] run := by
    rw [← Function.iterate_succ_apply' (unfolded e), Function.iterate_succ_apply]
    exact iterate_unfolded (Nat.lt_succ_self _) _ _
  obtain ⟨k, rfl⟩ := Nat.exists_eq_add_of_le hn
  rw [runTemplate, runner_eq_iterate, Nat.add_comm, Function.iterate_add_apply,
    Function.iterate_fixed (hfixed run)]
  exact iterate_unfolded (Nat.lt_succ_self _) _ _

/-- **The recursion from template to template has one solution.** -/
theorem eq_unfolded_iff (e : Environment) (run : Runner) :
    run = unfolded e run ↔ run = runTemplate e := by
  constructor
  · intro h
    rw [← runTemplate_eq (Nat.lt_succ_self maxDepth) run, Function.iterate_fixed h.symm]
  · rintro rfl
    have h := runTemplate_eq (e := e) (Nat.lt_succ_of_lt (Nat.lt_succ_self maxDepth)) (runTemplate e)
    rw [Function.iterate_succ_apply', runTemplate_eq (Nat.lt_succ_self maxDepth)] at h
    exact h.symm

end Render

namespace Environment

/-- **Every rendering ends**, with a text or with a fault, whatever templates run one another.

What runs templates is the one solution of the recursion from template to template: unfolded more than
64 times it uses the runner at the bottom no more, whichever that is. In every moment of a rendering no
more than 64 templates are running. Every node, template and chain that begins ends again, a chain with
no more than 33 templates in it. A loop has one pass for each of its elements, which are a list. -/
theorem every_render_ends (e : Environment) :
    (∀ c, (∃ text, (e.render c).1 = .ok text) ∨ ∃ f, (e.render c).1 = .error f) ∧
    (∀ run : Runner, run = unfolded e run ↔ run = runTemplate e) ∧
    (∀ (run : Runner) (n : Nat), 64 < n → (unfolded e)^[n] run = runTemplate e) ∧
    (History.renderMain e).run = renderMain e ∧
    (∀ c before m after, e.history c = before ++ m :: after →
      History.begun before = History.ended before + m.state.depth ∧ m.state.depth ≤ 64) ∧
    (∀ c before b s after, e.history c = before ++ ⟨.begins b, s⟩ :: after →
      ∃ inside t rest, after = inside ++ ⟨.ends b, t⟩ :: rest ∧ Path (b.enter s) inside t ∧
        ∀ name, b = .chain name →
          inside.countP (fun m => m.deed.beginsTemplate && m.state.depth == s.depth) ≤ 33) ∧
    (∀ targets body otherwise (ps : Value.Pairs), Eval.loop targets body otherwise ps =
      if ps.toList = [] then otherwise else Eval.passes targets body ps.toList) ∧
    ∀ n : Nat, ∃ ps, (Value.int n).pairs = .ok ps ∧ ps.toList.length = n := by
  refine ⟨fun c => ?_, eq_unfolded_iff e, fun run n hn => runTemplate_eq hn run,
    History.run_renderMain e, fun c => e.history_depth c, fun c before b s after h => ?_,
    fun targets _ _ ps => Eval.loop_eq targets ps, fun n => ?_⟩
  · cases h : (e.render c).1 with
    | ok text => exact .inl ⟨text, rfl⟩
    | error f => exact .inr ⟨f, rfl⟩
  · obtain ⟨inside, t, rest, hafter, hallows, hinside⟩ := Environment.history_stretch h
    refine ⟨inside, t, rest, hafter, hinside, ?_⟩
    rintro name rfl
    exact hallows.begun
  · refine ⟨.below n, ?_, by simp [Value.Pairs.toList]⟩
    rw [Value.pairs, if_pos (Int.natCast_nonneg n)]
    rfl

/-- A page that extends itself. -/
def circularPages : Environment where
  templates := [
    ("page", { name := "page", nodes := [
      .action 1 .body { commands := [[.call "extends", .const (.text "page")]] }] })]

set_option maxRecDepth 20000 in
/-- The page ends at the limit on parents. -/
theorem every_render_ends_circularPages :
    (circularPages.render { main := some "page" }).1 =
      .error { cause := .extendsTooMany "page" } ∧
    (unfolded circularPages)^[65] (fun _ _ => pure "never") = runTemplate circularPages ∧
    (∃ s inside t rest, circularPages.history { main := some "page" } =
        ⟨.begins (.chain "page"), s⟩ :: (inside ++ ⟨.ends (.chain "page"), t⟩ :: rest) ∧
      inside.countP (fun m => m.deed.beginsTemplate && m.state.depth == s.depth) ≤ 33) ∧
    ∃ before m after, circularPages.history { main := some "page" } = before ++ m :: after ∧
      m.deed = .inherits "page" ∧ m.state.depth = 1 ∧
      History.begun before = History.ended before + m.state.depth := by
  have h := circularPages.every_render_ends
  refine ⟨by cbv, h.2.2.1 _ 65 (by decide), ?_, ?_⟩
  · obtain ⟨s, hsplit⟩ : ∃ s, circularPages.history { main := some "page" } =
        [] ++ ⟨.begins (.chain "page"), s⟩ ::
          (circularPages.history { main := some "page" }).tail := ⟨_, rfl⟩
    obtain ⟨inside, t, rest, hafter, -, hlimit⟩ := h.2.2.2.2.2.1 _ [] _ s _ hsplit
    rw [hafter] at hsplit
    exact ⟨s, inside, t, rest, hsplit, hlimit _ rfl⟩
  · obtain ⟨m, hsplit, hdeed, hdepth⟩ : ∃ m, circularPages.history { main := some "page" } =
        (circularPages.history { main := some "page" }).take 3 ++
          m :: (circularPages.history { main := some "page" }).drop 4 ∧
        m.deed = .inherits "page" ∧ m.state.depth = 1 := ⟨_, rfl, rfl, rfl⟩
    exact ⟨_, m, _, hsplit, hdeed, hdepth, (h.2.2.2.2.1 _ _ m _ hsplit).1⟩

end Environment

end Stencil
