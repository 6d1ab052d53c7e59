import Stencil.Proofs.Html.Document
import Stencil.Proofs.Render.Ends
import Stencil.Proofs.Render.Traced

/-!
# The trail of a template

What a template comes across while it is run: its texts and actions in the order of their execution,
with branches left out and bodies repeated.

* `Trail.nodes` runs nodes with a trail, and `Trail.run_nodes` says that the trail changes nothing else.
* `HtmlContext.along` follows the context over the texts of a trail.
* `Trail.tracks_nodes` compares the two orders: where the parts of all branches lead back to their
  start, the actions of a trail hold the contexts that lead up to them.
-/

namespace Stencil

/-- What is come across. -/
inductive Visit where
  | text (s : String)
  | action (line : Nat) (context : HtmlContext) (pipeline : Pipeline)

namespace Trail

open Render Traced

variable (e : Environment) (run : Runner) (t : Template)

/-! ## Nodes with their trail -/

mutual

/-- Runs a node of the template `t`. -/
def node : Node → Traced Visit PUnit
  | .text s => do
    visit (.text s)
    quiet (Run.write s)
  | .action line context p => do
    visit (.action line context p)
    quiet (Eval.node e run t (.action line context p))
  | .cond line negated p body otherwise => Traced.inScope Scopes.pushSame do
    let v ← quiet (Run.located t.name line (Eval.pipeline e run .body p))
    if v.isTrue ≠ negated then Traced.inScope Scopes.pushSame (nodes body)
    else Traced.inScope Scopes.pushSame (nodes otherwise)
  | .range line p body otherwise =>
    Traced.located t.name line <| Traced.inScope Scopes.pushSame do
      let v ← quiet (Eval.commands e run .body none p.commands)
      let pairs ← quiet (Run.lift v.pairs)
      loop p.targets (nodes body) (Traced.inScope Scopes.pushSame (nodes otherwise)) pairs
  | .scope line p body otherwise => Traced.inScope Scopes.pushSame do
    let v ← quiet (Run.located t.name line (Eval.pipeline e run .body p))
    if v.isTrue then Traced.inScope (Scopes.push v) (nodes body)
    else Traced.inScope Scopes.pushSame (nodes otherwise)
  | .template line name p => quiet (Eval.node e run t (.template line name p))

/-- Runs some nodes of the template `t`. -/
def nodes : List Node → Traced Visit PUnit
  | [] => pure ()
  | n :: ns => do
    node n
    nodes ns

end

/-! ## The trail changes nothing -/

mutual

theorem run_node : ∀ n : Node, (node e run t n).run = Eval.node e run t n
  | .text s => by rw [node, run_bind]; rfl
  | .action line context p => by rw [node, run_bind]; rfl
  | .cond line negated p body otherwise => by
    rw [node, Eval.node, run_inScope, run_bind]
    refine congrArg (Run.inScope _) (congrArg (Bind.bind _) (funext fun v => ?_))
    split
    · rw [run_inScope, run_nodes body]
    · rw [run_inScope, run_nodes otherwise]
  | .range line p body otherwise => by
    rw [node, Eval.node]
    change Run.located _ _ (Run.inScope _ (quiet _ >>= fun v => quiet _ >>= fun ps => _).run) = _
    rw [run_bind]
    refine congrArg (Run.located _ _) (congrArg (Run.inScope _) (congrArg (Bind.bind _)
      (funext fun v => ?_)))
    rw [run_bind]
    refine congrArg (Bind.bind _) (funext fun ps => ?_)
    rw [run_loop, run_inScope, run_nodes body, run_nodes otherwise]
  | .scope line p body otherwise => by
    rw [node, Eval.node, run_inScope, run_bind]
    refine congrArg (Run.inScope _) (congrArg (Bind.bind _) (funext fun v => ?_))
    split
    · rw [run_inScope, run_nodes body]
    · rw [run_inScope, run_nodes otherwise]
  | .template .. => by rw [node]; rfl

/-- **Nodes do with a trail what they do without.** -/
theorem run_nodes : ∀ ns : List Node, (nodes e run t ns).run = Eval.nodes e run t ns
  | [] => rfl
  | n :: ns => by rw [nodes, run_bind, run_node n, Eval.nodes, run_nodes ns]

end

end Trail

namespace HtmlContext

/-! ## Contexts along a trail -/

/-- The context after the texts of a trail, read one by one. -/
def along (c : HtmlContext) (trail : List Visit) : HtmlContext :=
  trail.foldl (fun c v => match v with
    | .text s => c.feed s.toList
    | .action .. => c) c

theorem along_append (c : HtmlContext) (trail rest : List Visit) :
    c.along (trail ++ rest) = (c.along trail).along rest :=
  List.foldl_append

/-- Every action of the trail holds the context that leads up to it. -/
def Agrees (c : HtmlContext) (trail : List Visit) : Prop :=
  ∀ before line context p rest, trail = before ++ .action line context p :: rest →
    context = c.along before

theorem agrees_nil (c : HtmlContext) : c.Agrees [] := by
  intro before line context p rest h
  simp at h

theorem agrees_text (c : HtmlContext) (s : String) : c.Agrees [.text s] := by
  intro before line context p rest h
  rw [List.cons_eq_append_iff] at h
  rcases h with ⟨-, h⟩ | ⟨before', -, h⟩
  · cases h
  · simp at h

theorem agrees_action (c : HtmlContext) (line : Nat) (p : Pipeline) :
    c.Agrees [.action line c p] := by
  intro before line' context p' rest h
  rw [List.cons_eq_append_iff] at h
  rcases h with ⟨rfl, h⟩ | ⟨before', -, h⟩
  · cases h
    rfl
  · simp at h

theorem Agrees.append {c : HtmlContext} {trail trail' : List Visit} (h : c.Agrees trail)
    (h' : (c.along trail).Agrees trail') : c.Agrees (trail ++ trail') := by
  intro before line context p rest heq
  rw [List.append_eq_append_iff] at heq
  rcases heq with ⟨between, rfl, hrest⟩ | ⟨between, htrail, hrest⟩
  · rw [along_append]
    exact h' between line context p rest hrest
  · cases between with
    | nil =>
      rw [List.append_nil] at htrail
      subst htrail
      exact h' [] line context p rest hrest.symm
    | cons v between =>
      obtain ⟨rfl, -⟩ := List.cons.inj hrest
      exact h before line context p between htrail

end HtmlContext

namespace Trail

open Render Traced

/-- From the context `c` on, the actions that are come across hold the contexts that lead up to them,
and a computation that succeeds ends in the context `c'`. -/
def Tracks (c c' : HtmlContext) {α : Type} (act : Traced Visit α) : Prop :=
  ∀ s, c.Agrees (act s).2 ∧ ∀ a t, (act s).1 = .ok a t → c.along (act s).2 = c'

namespace Tracks

variable {α β : Type} {c c' c'' : HtmlContext}

theorem quiet (act : Run α) : Tracks c c (Traced.quiet act) :=
  fun _ => ⟨c.agrees_nil, fun _ _ _ => rfl⟩

theorem text (s : String) : Tracks c (c.feed s.toList) (visit (.text s)) :=
  fun _ => ⟨c.agrees_text s, fun _ _ _ => rfl⟩

theorem action (line : Nat) (p : Pipeline) : Tracks c c (visit (.action line c p)) :=
  fun _ => ⟨c.agrees_action line p, fun _ _ _ => rfl⟩

theorem bind {act : Traced Visit α} {k : α → Traced Visit β} (h : Tracks c c' act)
    (hk : ∀ a, Tracks c' c'' (k a)) : Tracks c c'' (act >>= k) := by
  intro s
  change c.Agrees (andThen act k s).2 ∧ ∀ b t, (andThen act k s).1 = .ok b t →
    c.along (andThen act k s).2 = c''
  have hact := h s
  unfold andThen
  rcases hs : act s with ⟨⟨a, t⟩ | ⟨f, t⟩, trail⟩
  · rw [hs] at hact
    obtain ⟨hagrees, hend⟩ := hact
    have hc' : c.along trail = c' := hend a t rfl
    obtain ⟨hagrees', hend'⟩ := hk a t
    refine ⟨hagrees.append (hc'.symm ▸ hagrees'), fun b u hb => ?_⟩
    rw [HtmlContext.along_append, hc']
    exact hend' b u hb
  · rw [hs] at hact
    exact ⟨hact.1, fun _ _ hb => nomatch hb⟩

theorem located {act : Traced Visit α} (template : String) (line : Nat) (h : Tracks c c' act) :
    Tracks c c' (Traced.located template line act) := by
  intro s
  obtain ⟨hagrees, hend⟩ := h s
  exact ⟨hagrees, fun a t hok => hend a t (Run.located_eq_ok hok)⟩

theorem inScope {act : Traced Visit α} (enter : Scopes → Scopes) (h : Tracks c c' act) :
    Tracks c c' (Traced.inScope enter act) := by
  intro s
  obtain ⟨hagrees, hend⟩ := h { s with scopes := enter s.scopes }
  refine ⟨hagrees, fun a t hok => ?_⟩
  obtain ⟨u, hact, -⟩ := Run.inScope_eq_ok hok
  exact hend a u hact

end Tracks

/-! ## Nodes -/

section Loop

variable {c : HtmlContext} (targets : List String) {body otherwise : Traced Visit PUnit}

theorem tracks_passes (hbody : Tracks c c body) (ps : List (Value × Value)) :
    Tracks c c (passes targets body ps) := by
  induction ps with
  | nil => exact .quiet _
  | cons p ps ih => exact .bind (.inScope _ (.bind (.quiet _) fun _ => hbody)) fun _ => ih

/-- However often the body is run, the loop leads back to where it starts. -/
theorem tracks_loop (hbody : Tracks c c body) (hother : Tracks c c otherwise) (ps : Value.Pairs) :
    Tracks c c (loop targets body otherwise ps) := by
  rw [loop_eq]
  split
  · exact hother
  · exact tracks_passes targets hbody ps.toList

end Loop

open Node

/-- The two parts of a branch that leads back to its start. -/
theorem tracks_parts (e : Environment) (run : Runner) (t : Template) {c : HtmlContext}
    {body otherwise : List Node}
    (hrecorded : RecordedAll c body ∧ RecordedAll (contextAfterAll c body) otherwise)
    (hsettled : (Returns c body ∧ SettledAll c body) ∧
      Returns (contextAfterAll c body) otherwise ∧ SettledAll (contextAfterAll c body) otherwise)
    (hfirst : RecordedAll c body → SettledAll c body →
      Tracks c (contextAfterAll c body) (nodes e run t body))
    (hsecond : RecordedAll c otherwise → SettledAll c otherwise →
      Tracks c (contextAfterAll c otherwise) (nodes e run t otherwise)) :
    contextAfterAll (contextAfterAll c body) otherwise = c ∧ Tracks c c (nodes e run t body) ∧
      Tracks c c (nodes e run t otherwise) := by
  obtain ⟨⟨hreturns, hbody⟩, hreturns', hother⟩ := hsettled
  have hstart : contextAfterAll c body = c := hreturns
  have hfirst := hfirst hrecorded.1 hbody
  rw [hstart] at hrecorded hreturns' hother hfirst ⊢
  have hend : contextAfterAll c otherwise = c := hreturns'
  have hsecond := hsecond hrecorded.2 hother
  rw [hend] at hsecond ⊢
  exact ⟨rfl, hfirst, hsecond⟩

mutual

theorem tracks_node (e : Environment) (run : Runner) (t : Template) {c : HtmlContext} : ∀ n : Node,
    Recorded c n → Settled c n → Tracks c (contextAfter c n) (node e run t n)
  | .text s, _, _ => .bind (.text s) fun _ => .quiet _
  | .action line _ p, hrecorded, _ => by
    obtain rfl := hrecorded
    exact .bind (.action line p) fun _ => .quiet _
  | .cond line negated p body otherwise, hrecorded, hsettled => by
    obtain ⟨hend, hfirst, hsecond⟩ := tracks_parts e run t hrecorded hsettled
      (tracks_nodes e run t body) (tracks_nodes e run t otherwise)
    rw [contextAfter, hend, node]
    refine .inScope _ (.bind (.quiet _) fun v => ?_)
    split
    · exact .inScope _ hfirst
    · exact .inScope _ hsecond
  | .range line p body otherwise, hrecorded, hsettled => by
    obtain ⟨hend, hfirst, hsecond⟩ := tracks_parts e run t hrecorded hsettled
      (tracks_nodes e run t body) (tracks_nodes e run t otherwise)
    rw [contextAfter, hend, node]
    refine .located _ _ (.inScope _ (.bind (.quiet _) fun v => .bind (.quiet _) fun ps => ?_))
    exact tracks_loop p.targets hfirst (.inScope _ hsecond) ps
  | .scope line p body otherwise, hrecorded, hsettled => by
    obtain ⟨hend, hfirst, hsecond⟩ := tracks_parts e run t hrecorded hsettled
      (tracks_nodes e run t body) (tracks_nodes e run t otherwise)
    rw [contextAfter, hend, node]
    refine .inScope _ (.bind (.quiet _) fun v => ?_)
    split
    · exact .inScope _ hfirst
    · exact .inScope _ hsecond
  | .template .., _, _ => .quiet _

/-- **Execution follows the document.** The actions that hold the contexts at which they stand in
document order hold those that lead up to them, whichever branches are taken and however often bodies
are repeated, if the parts of all branches lead back to their start. -/
theorem tracks_nodes (e : Environment) (run : Runner) (t : Template) {c : HtmlContext} :
    ∀ ns : List Node, RecordedAll c ns → SettledAll c ns →
      Tracks c (contextAfterAll c ns) (nodes e run t ns)
  | [], _, _ => .quiet _
  | n :: ns, hrecorded, hsettled =>
    .bind (tracks_node e run t n hrecorded.1 hsettled.1) fun _ =>
      tracks_nodes e run t ns hrecorded.2 hsettled.2

end

end Trail

end Stencil
