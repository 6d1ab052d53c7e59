import Stencil.Proofs.Render.Composable

/-!
# The nodes of a history

A history can be read node by node: behind the beginning of a node stands what the node does when it
is run from the state in which it begins.

* `History.Runs` says so of one node, and `History.AllRun` of all nodes that begin in a list of moments.
* `History.allRun_runner` is the statement for templates, `Environment.history_runs` for a rendering.
-/

namespace Stencil

open Render

namespace History

/-- A node that begins in the state `s` is a node of a template of the environment, and it is followed
by what running it from there does. -/
def Runs (e : Environment) (n : Node) (s : State) (after : List Moment) : Prop :=
  ∃ room name t rest, e.template name = .ok t ∧
    ⟨.begins (.node n), s⟩ :: after = (node e (runner e room) t n s).2 ++ rest

/-- All nodes that begin are run. -/
def AllRun (e : Environment) (H : List Moment) : Prop :=
  ∀ before n s after, H = before ++ ⟨.begins (.node n), s⟩ :: after → Runs e n s after

variable {e : Environment} {s : State} {H H' : List Moment} {d : Deed}

theorem Runs.append {n : Node} {after : List Moment} (h : Runs e n s after) (more : List Moment) :
    Runs e n s (after ++ more) := by
  obtain ⟨room, name, t, rest, ht, heq⟩ := h
  exact ⟨room, name, t, rest ++ more, ht, by rw [← List.cons_append, heq, List.append_assoc]⟩

namespace AllRun

theorem nil : AllRun e [] := by
  intro before n s after h
  simp at h

theorem cons (hd : ∀ n, d = .begins (.node n) → Runs e n s H) (h : AllRun e H) :
    AllRun e (⟨d, s⟩ :: H) := by
  intro before n u after heq
  cases before with
  | nil =>
    obtain ⟨hm, rfl⟩ := List.cons.inj heq
    cases hm
    exact hd n rfl
  | cons m before => exact h before n u after (List.cons.inj heq).2

theorem single (hd : ∀ n, d ≠ .begins (.node n)) : AllRun e [⟨d, s⟩] :=
  .cons (fun n h => absurd h (hd n)) .nil

theorem append (h : AllRun e H) (h' : AllRun e H') : AllRun e (H ++ H') := by
  intro before n s after heq
  rcases List.append_eq_append_iff.1 heq with ⟨between, rfl, hbetween⟩ | ⟨between, rfl, hbetween⟩
  · exact h' between n s after hbetween
  · cases between with
    | nil => exact h' [] n s after hbetween.symm
    | cons m between =>
      obtain ⟨rfl, rfl⟩ := List.cons.inj hbetween
      exact (h before n s between rfl).append H'

end AllRun

/-! ## Computations -/

/-- All nodes are run that begin in the course of the computation. -/
def Replays (e : Environment) {α : Type} (act : Traced Moment α) : Prop := ∀ s, AllRun e (act s).2

namespace Replays

variable {α β : Type}

theorem quiet (act : Run α) : Replays e (Traced.quiet act : Traced Moment α) := fun _ => .nil

theorem bind {act : Traced Moment α} {k : α → Traced Moment β} (h : Replays e act)
    (hk : ∀ a, Replays e (k a)) : Replays e (act >>= k) := by
  intro s
  rw [Traced.trail_bind]
  refine (h s).append ?_
  cases act.run s with
  | ok a t => exact hk a t
  | error f t => exact .nil

theorem note (hd : ∀ n, d ≠ .begins (.node n)) (act : Run α) : Replays e (History.note d act) :=
  fun _ => .single hd

theorem located {act : Traced Moment α} (template : String) (line : Nat) (h : Replays e act) :
    Replays e (Traced.located template line act) := h

theorem inScope {act : Traced Moment α} (enter : Scopes → Scopes) (h : Replays e act) :
    Replays e (Traced.inScope enter act) := fun _ => h _

theorem within {b : Stretch} {act : Traced Moment α}
    (hb : ∀ n s, b = .node n → Runs e n s ((act s).2 ++ [⟨.ends b, act.run.final s⟩]))
    (h : Replays e act) : Replays e (History.within b act) := by
  refine fun s => .cons (fun n hn => ?_) ((h _).append (.single fun n hn => nomatch hn))
  obtain rfl := Deed.begins.inj hn
  exact hb n s rfl

end Replays

/-- The nodes of a template of the environment are run as they are told. -/
theorem composable_replays {room : Nat} (hrun : ∀ name dot, Replays e (runner e room name dot))
    {name : String} {t : Template} (ht : e.template name = .ok t) :
    Traced.Composable e (runner e room) t fun _ act => Replays e act where
  ran := hrun
  quiet _ _ := .quiet _
  bind := .bind
  noted hd _ _ _ := .note (by rintro n rfl; cases hd) _
  inScope enter h := h.inScope enter
  located template line h := h.located template line
  stretch n heq h := by
    refine .within (fun n' s hn => ?_) h
    obtain rfl := Stretch.node.inj hn
    exact ⟨room, name, t, [], ht, by rw [heq, List.append_nil]; rfl⟩

/-! ## Templates -/

theorem replays_execute {room : Nat} (hrun : ∀ name dot, Replays e (runner e room name dot))
    (name : String) (dot : Value) : Replays e (execute e (runner e room) name dot) := by
  intro s
  unfold execute
  rw [Traced.trail_bind]
  refine .append .nil ?_
  cases he : e.template name with
  | error c => exact .nil
  | ok t =>
    change AllRun e (((Traced.quiet get : Traced Moment State) >>= _) s).2
    rw [Traced.trail_get]
    split
    · exact .nil
    · refine Replays.within (by rintro _ _ ⟨⟩) (.bind ?_ fun _ => .quiet _) s
      exact (composable_replays hrun he).nodes t.nodes

theorem replays_followParents {exec : Teller} (hexec : ∀ name dot, Replays e (exec name dot))
    (name : String) (n : Nat) : ∀ output, Replays e (followParents exec name n output) := by
  have htake : Replays e (note .takes takeParent) := .note (by rintro _ ⟨⟩) _
  induction n with
  | zero =>
    refine fun output => .bind htake fun parent => ?_
    cases parent with
    | none => exact .quiet _
    | some _ => exact .quiet _
  | succ n ih =>
    refine fun output => .bind htake fun parent => ?_
    cases parent with
    | none => exact .quiet _
    | some parent =>
      exact .bind (.quiet _) fun _ => .bind (.quiet _) fun s => .bind (hexec parent s.root) ih

/-- **The nodes that begin while a template is run are run as they are told**, by induction on the room
that is left. -/
theorem replays_runner (e : Environment) (room : Nat) :
    ∀ name dot, Replays e (runner e room name dot) := by
  induction room with
  | zero => exact fun _ _ => .quiet _
  | succ room ih =>
    intro name dot
    refine .within (by rintro _ _ ⟨⟩) (.bind (replays_execute ih name dot) ?_)
    exact replays_followParents (replays_execute ih) name maxParents

end History

/-- **A rendering can be read node by node.** -/
theorem Environment.history_runs (e : Environment) (c : RenderContext) :
    History.AllRun e (e.history c) := by
  have hrun := History.replays_runner e (maxDepth + 1)
  have hmain : History.Replays e (History.renderMain e) := by
    refine .bind (.quiet _) fun s => ?_
    cases s.context.main with
    | none => exact .quiet _
    | some main =>
      refine .bind (.quiet _) fun _ => ?_
      cases s.context.layout with
      | none => exact hrun _ _
      | some layout => exact .bind (hrun _ _) fun _ => .bind (.quiet _) fun _ => hrun _ _
  exact hmain _

end Stencil
