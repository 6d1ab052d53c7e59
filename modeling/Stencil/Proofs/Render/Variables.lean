import Stencil.Proofs.Render.Alike
import Stencil.Proofs.Render.Commands
import Stencil.Proofs.Scope.Places

/-!
# The scope of variables

A branch or a loop gives the variables around it back as it has found them, but for the values that were
assigned on purpose, and a template that is run inside of it has no part in them.

* `Assigned.nodes` runs nodes with their assignments as the trail, and `Assigned.run_nodes` says that the
  trail changes nothing else.
* `Assigned.Follows` says that the trail leads from the scopes before a computation to those behind it;
  `Assigned.follows_nodes` says so of nodes, by recursion over the template.
* `Render.runner_unseen` says that a template that is run does not see the variables around it.
* `Eval.branch_scoped` puts these together.
-/

namespace Stencil

open Render

/-- The node runs in a scope of its own. -/
def Node.opensScope : Node → Bool
  | .cond .. | .range .. | .scope .. => true
  | .text _ | .action .. | .template .. => false

/-! ## Nodes with their assignments -/

namespace Assigned

open Traced

variable (e : Environment) (run : Runner) (t : Template)

/-- Sets a variable. -/
def set (assigns : Bool) (v : Value) (name : String) : Traced Assignment PUnit :=
  if assigns then noted (fun s => ⟨name, v, s.scopes⟩) (Eval.assign name v)
  else quiet (Eval.declare name v)

/-- Sets the variables of a pipeline to its value. -/
def bind (assigns : Bool) (v : Value) : List String → Traced Assignment PUnit
  | [] => pure ()
  | name :: names => do
    set assigns v name
    bind assigns v names

/-- Evaluates a pipeline. -/
def pipeline (context : HtmlContext) (p : Pipeline) : Traced Assignment Value := do
  let v ← quiet (Eval.commands e run context none p.commands)
  bind p.assigns v p.targets
  return v

mutual

/-- Runs a node of the template `t`. -/
def node : Node → Traced Assignment PUnit
  | .text s => quiet (Run.write s)
  | .action line context p => do
    let v ← Traced.located t.name line (pipeline e run context p)
    quiet (if p.targets.isEmpty then Run.write (v.written t.escape context) else pure ())
  | .cond line negated p body otherwise => Traced.inScope Scopes.pushSame do
    let v ← Traced.located t.name line (pipeline e run .body p)
    if v.isTrue ≠ negated then Traced.inScope Scopes.pushSame (nodes body)
    else Traced.inScope Scopes.pushSame (nodes otherwise)
  | .range line p body otherwise =>
    Traced.located t.name line <| Traced.inScope Scopes.pushSame do
      let v ← quiet (Eval.commands e run .body none p.commands)
      let pairs ← quiet (Run.lift v.pairs)
      loop p.targets (nodes body) (Traced.inScope Scopes.pushSame (nodes otherwise)) pairs
  | .scope line p body otherwise => Traced.inScope Scopes.pushSame do
    let v ← Traced.located t.name line (pipeline e run .body p)
    if v.isTrue then Traced.inScope (Scopes.push v) (nodes body)
    else Traced.inScope Scopes.pushSame (nodes otherwise)
  | .template line name none => do
    let text ← quiet (Run.located t.name line (run name .undefined))
    quiet (Run.write text)
  | .template line name (some p) => do
    let dot ← Traced.located t.name line (pipeline e run .body p)
    let text ← quiet (Run.located t.name line (run name dot))
    quiet (Run.write text)

/-- Runs some nodes of the template `t`. -/
def nodes : List Node → Traced Assignment PUnit
  | [] => pure ()
  | n :: ns => do
    node n
    nodes ns

end

/-! ## The trail changes nothing -/

theorem run_bind (assigns : Bool) (v : Value) (names : List String) :
    (bind assigns v names).run = Eval.bind assigns v names := by
  induction names with
  | nil => rfl
  | cons name names ih =>
    rw [bind, Traced.run_bind, ih, Eval.bind]
    cases assigns <;> rfl

theorem run_pipeline (context : HtmlContext) (p : Pipeline) :
    (pipeline e run context p).run = Eval.pipeline e run context p := by
  rw [pipeline, Traced.run_bind, Eval.pipeline]
  refine congrArg (Bind.bind _) (funext fun v => ?_)
  rw [Traced.run_bind, run_bind]
  rfl

theorem run_located (line : Nat) (context : HtmlContext) (p : Pipeline) :
    (Traced.located t.name line (pipeline e run context p)).run =
      Run.located t.name line (Eval.pipeline e run context p) := by
  rw [← run_pipeline]
  rfl

mutual

theorem run_node : ∀ n : Node, (node e run t n).run = Eval.node e run t n
  | .text s => by rw [node]; rfl
  | .action line context p => by
    rw [node, Traced.run_bind, run_located, Eval.node]
    rfl
  | .cond line negated p body otherwise => by
    rw [node, Eval.node, run_inScope, Traced.run_bind, run_located]
    refine congrArg (Run.inScope _) (congrArg (Bind.bind _) (funext fun v => ?_))
    split
    · rw [run_inScope, run_nodes body]
    · rw [run_inScope, run_nodes otherwise]
  | .range line p body otherwise => by
    rw [node, Eval.node]
    change Run.located _ _ (Run.inScope _ (quiet _ >>= fun v => quiet _ >>= fun ps => _).run) = _
    rw [Traced.run_bind]
    refine congrArg (Run.located _ _) (congrArg (Run.inScope _) (congrArg (Bind.bind _)
      (funext fun v => ?_)))
    rw [Traced.run_bind]
    refine congrArg (Bind.bind _) (funext fun ps => ?_)
    rw [run_loop, run_inScope, run_nodes body, run_nodes otherwise]
  | .scope line p body otherwise => by
    rw [node, Eval.node, run_inScope, Traced.run_bind, run_located]
    refine congrArg (Run.inScope _) (congrArg (Bind.bind _) (funext fun v => ?_))
    split
    · rw [run_inScope, run_nodes body]
    · rw [run_inScope, run_nodes otherwise]
  | .template line name none => by rw [node, Traced.run_bind, Eval.node]; rfl
  | .template line name (some p) => by
    rw [node, Traced.run_bind, run_located, Eval.node]
    refine congrArg (Bind.bind _) (funext fun dot => ?_)
    rw [Traced.run_bind]
    rfl

/-- **Nodes do with a trail what they do without.** -/
theorem run_nodes : ∀ ns : List Node, (nodes e run t ns).run = Eval.nodes e run t ns
  | [] => rfl
  | n :: ns => by rw [nodes, Traced.run_bind, run_node n, Eval.nodes, run_nodes ns]

end

/-! ## The trail leads through the scopes -/

/-- The trail leads from the scopes before the computation to those behind it, whether it succeeds or
fails, and all assignments on it have `N`. -/
def Follows {α : Type} (N : Assignment → Prop) (act : Traced Assignment α) : Prop :=
  ∀ s, Scopes.Leads s.scopes (act s).2 (act.run.final s).scopes ∧ ∀ a ∈ (act s).2, N a

namespace Follows

variable {α β : Type} {N N' : Assignment → Prop}

theorem mono {act : Traced Assignment α} (h : Follows N act) (hN : ∀ a, N a → N' a) :
    Follows N' act :=
  fun s => ⟨(h s).1, fun a ha => hN a ((h s).2 a ha)⟩

theorem quiet {act : Run α} (h : ∀ s, Scopes.Leads s.scopes [] (act.final s).scopes) :
    Follows N (Traced.quiet act) :=
  fun s => ⟨h s, nofun⟩

/-- A computation that leaves the scopes alone. -/
theorem aside {act : Run α} {Q : α → Prop} (h : ∀ scopes, Run.Keeps (·.scopes = scopes) act Q) :
    Follows N (Traced.quiet act) :=
  quiet fun s => by
    rw [(h s.scopes).final rfl]
    exact .refl _

theorem bind {act : Traced Assignment α} {k : α → Traced Assignment β} (h : Follows N act)
    (hk : ∀ a, Follows N (k a)) : Follows N (act >>= k) := by
  intro s
  obtain ⟨hleads, hN⟩ := h s
  rw [Traced.final_bind, Traced.trail_bind]
  cases hact : act.run s with
  | ok a u =>
    rw [Run.final_of_ok hact] at hleads
    obtain ⟨hleads', hN'⟩ := hk a u
    refine ⟨hleads.trans hleads', fun b hb => ?_⟩
    rcases List.mem_append.1 hb with hb | hb
    · exact hN b hb
    · exact hN' b hb
  | error f u =>
    rw [Run.final_of_error hact] at hleads
    rw [List.append_nil]
    exact ⟨hleads, hN⟩

theorem located {act : Traced Assignment α} (line : Nat) (h : Follows N act) :
    Follows N (Traced.located t.name line act) := by
  intro s
  change Scopes.Leads _ _ (Run.final (Run.located _ _ act.run) s).scopes ∧ _
  rw [Run.final_located]
  exact h s

end Follows

/-- The scopes have the same shape behind the computation besides. -/
def Encloses {α : Type} (N : Assignment → Prop) (act : Traced Assignment α) : Prop :=
  Follows N act ∧ ∀ s, (act.run.final s).scopes.shape = s.scopes.shape

namespace Encloses

variable {α : Type} {N : Assignment → Prop} {act : Traced Assignment α}

theorem located (line : Nat) (h : Encloses N act) : Encloses N (Traced.located t.name line act) := by
  refine ⟨h.1.located t line, fun s => ?_⟩
  change (Run.final (Run.located _ _ act.run) s).scopes.shape = _
  rw [Run.final_located]
  exact h.2 s

/-- What is declared in a scope of its own is gone behind it. -/
theorem inScope {enter : Scopes → Scopes} (dot : Scopes → Value)
    (henter : ∀ ss, enter ss = Scopes.push (dot ss) ss) (h : Follows N act) :
    Encloses N (Traced.inScope enter act) := by
  have hinside (s : State) : Scopes.Leads (Scopes.push (dot s.scopes) s.scopes)
      (Traced.inScope enter act s).2
      (act.run.final { s with scopes := enter s.scopes }).scopes := by
    rw [← henter]
    exact (h { s with scopes := enter s.scopes }).1
  refine ⟨fun s => ⟨?_, (h _).2⟩, fun s => ?_⟩
  · rw [run_inScope, Run.inScope, Run.final_guarded, ← List.append_nil (Traced.inScope enter act s).2]
    exact .inScope (dot s.scopes) (hinside s) (.refl _)
  · rw [run_inScope, Run.inScope, Run.final_guarded]
    exact (hinside s).shape_tail

theorem pushSame (h : Follows N act) : Encloses N (Traced.inScope Scopes.pushSame act) :=
  inScope Scopes.dot (fun _ => rfl) h

theorem push (dot : Value) (h : Follows N act) : Encloses N (Traced.inScope (Scopes.push dot) act) :=
  inScope (fun _ => dot) (fun _ => rfl) h

theorem follows_and (h : Encloses N act) (C : Prop) : Follows N act ∧ (C → Encloses N act) :=
  ⟨h.1, fun _ => h⟩

end Encloses

section Nodes

variable {N : Assignment → Prop}

theorem follows_declare (name : String) (v : Value) : Follows N (quiet (Eval.declare name v)) :=
  .quiet fun _ => .declare name v (.refl _)

theorem follows_assign (name : String) (v : Value) (hN : ∀ scopes, N ⟨name, v, scopes⟩) :
    Follows N (noted (fun s => ⟨name, v, s.scopes⟩) (Eval.assign name v)) := by
  intro s
  refine ⟨?_, by simpa [noted] using hN s.scopes⟩
  have hfinal : (Run.final (Eval.assign name v) s).scopes =
      (Scopes.assign? name v s.scopes).getD s.scopes := by
    rw [Eval.assign, Run.final_getState]
    cases Scopes.assign? name v s.scopes <;> rfl
  change Scopes.Leads s.scopes [_] (Run.final (Eval.assign name v) s).scopes
  rw [hfinal]
  exact .assign name v (.refl _)

theorem follows_bind (assigns : Bool) (v : Value) (names : List String)
    (hN : assigns = true → ∀ name ∈ names, ∀ scopes, N ⟨name, v, scopes⟩) :
    Follows N (bind assigns v names) := by
  induction names with
  | nil => exact .quiet fun _ => .refl _
  | cons name names ih =>
    refine .bind ?_ fun _ => ih fun h other hother => hN h other (List.mem_cons_of_mem name hother)
    cases assigns with
    | false => exact follows_declare name v
    | true => exact follows_assign name v (hN rfl name List.mem_cons_self)

theorem follows_bindPair (key item : Value) (targets : List String) :
    Follows N (quiet (Eval.bindPair key item targets)) := by
  refine .quiet fun s => ?_
  match targets with
  | [] => exact .refl _
  | [x] => exact .declare x item (.refl _)
  | [k, x] => exact .declare k key (.declare x item (.refl _))
  | _ :: _ :: _ :: _ => exact .refl _

theorem encloses_pass (targets : List String) {body : Traced Assignment PUnit} (h : Follows N body)
    (key item : Value) : Encloses N (pass targets key item body) :=
  .push item (.bind (follows_bindPair key item targets) fun _ => h)

theorem follows_passes (targets : List String) {body : Traced Assignment PUnit} (h : Follows N body)
    (ps : List (Value × Value)) : Follows N (passes targets body ps) := by
  induction ps with
  | nil => exact .quiet fun _ => .refl _
  | cons p ps ih => exact .bind (encloses_pass targets h p.1 p.2).1 fun _ => ih

theorem follows_loop (targets : List String) {body otherwise : Traced Assignment PUnit}
    (h : Follows N body) (hother : Follows N otherwise) (ps : Value.Pairs) :
    Follows N (loop targets body otherwise ps) := by
  rw [loop_eq]
  split
  · exact hother
  · exact follows_passes targets h ps.toList

/-- Some pipeline at the sites assigns to the variable. -/
def NamedAt (sites : List (HtmlContext × Pipeline)) (a : Assignment) : Prop :=
  ∃ site ∈ sites, site.2.assigns = true ∧ a.name ∈ site.2.targets

theorem NamedAt.mono {sites sites' : List (HtmlContext × Pipeline)} (h : sites ⊆ sites')
    {a : Assignment} : NamedAt sites a → NamedAt sites' a :=
  fun ⟨site, hsite, hnames⟩ => ⟨site, h hsite, hnames⟩

variable {e : Environment} {room : Nat}

theorem follows_pipeline (context : HtmlContext) (p : Pipeline)
    {sites : List (HtmlContext × Pipeline)} (hp : (context, p) ∈ sites) :
    Follows (NamedAt sites) (pipeline e (runner e room) context p) :=
  .bind (.aside fun scopes => Eval.scopes_commands e room context scopes none p.commands) fun v =>
    .bind (follows_bind p.assigns v p.targets fun h _ hname _ => ⟨(context, p), hp, h, hname⟩)
      fun _ => .quiet fun _ => .refl _

theorem follows_write (text : String) : Follows N (quiet (Run.write text)) :=
  .quiet fun _ => .refl _

theorem follows_run (line : Nat) (name : String) (dot : Value) :
    Follows N (quiet (Run.located t.name line (runner e room name dot))) :=
  .quiet fun s => by
    rw [Run.final_located, (runner_aside e room name dot s).1]
    exact .refl _

section Branches

variable {line : Nat} {p : Pipeline} {body otherwise : List Node}
  {sites : List (HtmlContext × Pipeline)}

theorem encloses_cond (negated : Bool) (hp : (.body, p) ∈ sites)
    (hbody : Follows (NamedAt sites) (nodes e (runner e room) t body))
    (hother : Follows (NamedAt sites) (nodes e (runner e room) t otherwise)) :
    Encloses (NamedAt sites) (node e (runner e room) t (.cond line negated p body otherwise)) := by
  refine .pushSame <| .bind (.located t line (follows_pipeline .body p hp)) fun v => ?_
  split
  · exact (Encloses.pushSame hbody).1
  · exact (Encloses.pushSame hother).1

theorem encloses_range (hbody : Follows N (nodes e (runner e room) t body))
    (hother : Follows N (nodes e (runner e room) t otherwise)) :
    Encloses N (node e (runner e room) t (.range line p body otherwise)) := by
  refine .located t line <| .pushSame <| .bind
    (.aside fun scopes => Eval.scopes_commands e room .body scopes none p.commands) fun v =>
      .bind (.aside fun _ => .lift fun _ _ => trivial) fun ps => ?_
  exact follows_loop p.targets hbody (Encloses.pushSame hother).1 ps

theorem encloses_scope (hp : (.body, p) ∈ sites)
    (hbody : Follows (NamedAt sites) (nodes e (runner e room) t body))
    (hother : Follows (NamedAt sites) (nodes e (runner e room) t otherwise)) :
    Encloses (NamedAt sites) (node e (runner e room) t (.scope line p body otherwise)) := by
  refine .pushSame <| .bind (.located t line (follows_pipeline .body p hp)) fun v => ?_
  split
  · exact (Encloses.push v hbody).1
  · exact (Encloses.pushSame hother).1

end Branches

variable (e room)

mutual

theorem traces_node : ∀ n : Node, Follows (NamedAt n.sites) (node e (runner e room) t n) ∧
    (n.opensScope = true → Encloses (NamedAt n.sites) (node e (runner e room) t n))
  | .text s => ⟨follows_write s, nofun⟩
  | .action line context p => by
    refine ⟨.bind (.located t line (follows_pipeline context p (by simp [Node.sites]))) fun v =>
      .quiet fun s => ?_, nofun⟩
    split <;> exact .refl _
  | .cond line negated p body otherwise => by
    refine Encloses.follows_and (encloses_cond t negated (by simp [Node.sites]) ?_ ?_) _
    · exact (follows_nodes body).mono fun _ => .mono (by simp [Node.sites])
    · exact (follows_nodes otherwise).mono fun _ => .mono (by simp [Node.sites])
  | .range line p body otherwise => by
    refine Encloses.follows_and (encloses_range t ?_ ?_) _
    · exact (follows_nodes body).mono fun _ => .mono (by simp [Node.sites])
    · exact (follows_nodes otherwise).mono fun _ => .mono (by simp [Node.sites])
  | .scope line p body otherwise => by
    refine Encloses.follows_and (encloses_scope t (by simp [Node.sites]) ?_ ?_) _
    · exact (follows_nodes body).mono fun _ => .mono (by simp [Node.sites])
    · exact (follows_nodes otherwise).mono fun _ => .mono (by simp [Node.sites])
  | .template line name none =>
    ⟨.bind (follows_run t line name .undefined) fun text => follows_write text, nofun⟩
  | .template line name (some p) =>
    ⟨.bind (.located t line (follows_pipeline .body p (by simp [Node.sites]))) fun dot =>
      .bind (follows_run t line name dot) fun text => follows_write text, nofun⟩

/-- **The assignments of nodes lead through the scopes**, and pipelines among the nodes make them. -/
theorem follows_nodes : ∀ ns : List Node,
    Follows (NamedAt (Node.sitesOf ns)) (nodes e (runner e room) t ns)
  | [] => .quiet fun _ => .refl _
  | n :: ns =>
    .bind ((traces_node n).1.mono fun _ => .mono (by simp [Node.sitesOf])) fun _ =>
      (follows_nodes ns).mono fun _ => .mono (by simp [Node.sitesOf])

end

end Nodes

end Assigned

/-! ## The variables around a template -/

namespace Render

open Run

/-- The states differ in the scopes and the output of the running template. -/
def State.Around (s s' : State) : Prop := ∃ scopes output, s' = { s with scopes, output }

theorem chain_around : ChainCongruence State.Around where
  parent := by rintro _ _ ⟨_, _, rfl⟩; rfl
  setParent := by rintro _ _ ⟨scopes, output, rfl⟩ _; exact ⟨scopes, output, rfl⟩
  emit := by rintro _ _ ⟨scopes, output, rfl⟩ _; exact ⟨scopes, output, rfl⟩

/-- Inside of a template nothing is left of the difference. -/
theorem nested_around : Nested State.Around Eq where
  depth := by rintro _ _ ⟨_, _, rfl⟩; rfl
  enter := by rintro _ _ ⟨_, _, rfl⟩ _; rfl
  leave := by rintro _ _ _ _ ⟨scopes, output, rfl⟩ rfl; exact ⟨scopes, output, rfl⟩

theorem congruence_eq : Congruence Eq where
  scopes h := by rw [h]
  output h := by rw [h]
  parent h := by rw [h]
  setScopes h _ := by rw [h]
  setOutput h _ := by rw [h]
  setParent h _ := by rw [h]
  emit h _ := by rw [h]

theorem alike_eq {α : Type} (act : Run α) : Alike Eq act act := by
  rintro s _ rfl
  cases act s with
  | ok a t => exact .ok rfl
  | error f t => exact .error rfl

theorem alike_around (e : Environment) (room : Nat) (name : String) (dot : Value) :
    Alike State.Around (runner e room name dot) (runner e room name dot) := by
  cases room with
  | zero => exact .fail _
  | succ room =>
    refine alike_chain chain_around ?_ (fun name dot => ?_) name dot
    · rintro _ _ ⟨_, _, rfl⟩
      rfl
    · exact alike_execute nested_around congruence_eq (fun _ _ _ _ t _ => alike_eq _) dot

/-- **A template that is run neither sees nor changes the scopes and the output around it.** -/
theorem runner_unseen (e : Environment) (room : Nat) (name : String) (dot : Value) (s : State)
    (scopes : Scopes) (output : Output) :
    (∀ text u, runner e room name dot s = .ok text u → u.scopes = s.scopes ∧ u.output = s.output ∧
      runner e room name dot { s with scopes, output } = .ok text { u with scopes, output }) ∧
    (∀ f u, runner e room name dot s = .error f u → u.scopes = s.scopes ∧ u.output = s.output ∧
      runner e room name dot { s with scopes, output } = .error f { u with scopes, output }) := by
  obtain ⟨hscopes, houtput⟩ := runner_aside e room name dot s
  obtain ⟨hscopes', houtput'⟩ := runner_aside e room name dot { s with scopes, output }
  rcases (alike_around e room name dot s _ ⟨scopes, output, rfl⟩).cases with
    ⟨text, t, t', ht, ht', scopes', output', rfl⟩ | ⟨f, t, t', ht, ht', scopes', output', rfl⟩
  · rw [final_of_ok ht] at hscopes houtput
    rw [final_of_ok ht'] at hscopes' houtput'
    cases hscopes'
    cases houtput'
    refine ⟨fun text' u h => ?_, fun f u h => ?_⟩
    · cases ht.symm.trans h
      exact ⟨hscopes, houtput, ht'⟩
    · cases ht.symm.trans h
  · rw [final_of_error ht] at hscopes houtput
    rw [final_of_error ht'] at hscopes' houtput'
    cases hscopes'
    cases houtput'
    refine ⟨fun text u h => ?_, fun f' u h => ?_⟩
    · cases ht.symm.trans h
    · cases ht.symm.trans h
      exact ⟨hscopes, houtput, ht'⟩

end Render

/-! ## The scope of a variable -/

namespace Eval

open Scopes

theorem assign_ok {name : String} {v : Value} {s u : State} (h : assign name v s = .ok ⟨⟩ u) :
    ∃ p, Innermost name s.scopes p ∧ u = { s with scopes := u.scopes } ∧
      u.scopes.shape = s.scopes.shape ∧
      ∀ q, at? q u.scopes = if q = p then some (name, v) else at? q s.scopes := by
  rw [assign, Run.get_bind] at h
  cases ha : assign? name v s.scopes with
  | none =>
    rw [ha] at h
    exact nomatch h
  | some scopes =>
    rw [ha] at h
    cases h
    obtain ⟨p, hp, hshape, hat⟩ := assign?_some ha
    exact ⟨p, place?_innermost hp, rfl, hshape, hat⟩

/-- **Variables live as long as the scope they are declared in.** A node that opens a scope leaves the
same scopes, with the same data and the same names, whether it succeeds or fails. The value of a
variable is what the last assignment to its place has made of it, so that it changes only by an
assignment which named it and found it as the innermost variable of that name; some pipeline inside of
the node makes the assignment. An assignment changes this variable alone. A template that is run is the
same with other variables around it, and leaves them as they are. -/
theorem branch_scoped (e : Environment) (room : Nat) (t : Template) {n : Node}
    (hn : n.opensScope = true) (s : State) :
    let trail := (Assigned.node e (runner e room) t n s).2
    let after := ((node e (runner e room) t n).final s).scopes
    (Assigned.node e (runner e room) t n).run = node e (runner e room) t n ∧
    after.shape = s.scopes.shape ∧
    (∀ p name v, at? p s.scopes = some (name, v) →
      at? p after = some (name, Assignment.after p v trail)) ∧
    (∀ p name v w, at? p s.scopes = some (name, v) → at? p after = some (name, w) → w ≠ v →
      ∃ a ∈ trail, a.name = name ∧ a.value = w ∧ Innermost name a.scopes p) ∧
    (∀ a ∈ trail, Assigned.NamedAt n.sites a) ∧
    (∀ name v (r u : State), assign name v r = .ok ⟨⟩ u →
      ∃ p, Innermost name r.scopes p ∧ u = { r with scopes := u.scopes } ∧
        u.scopes.shape = r.scopes.shape ∧
        ∀ q, at? q u.scopes = if q = p then some (name, v) else at? q r.scopes) ∧
    (∀ name dot (r : State) scopes output,
      (∀ text u, runner e room name dot r = .ok text u → u.scopes = r.scopes ∧
        u.output = r.output ∧
        runner e room name dot { r with scopes, output } = .ok text { u with scopes, output }) ∧
      (∀ f u, runner e room name dot r = .error f u → u.scopes = r.scopes ∧ u.output = r.output ∧
        runner e room name dot { r with scopes, output } = .error f { u with scopes, output })) := by
  intro trail after
  have hrun := Assigned.run_node e (runner e room) t n
  obtain ⟨hfollows, hshape⟩ := (Assigned.traces_node t e room n).2 hn
  rw [hrun] at hshape
  have hleads : Leads s.scopes trail after := by
    have := (hfollows s).1
    rwa [hrun] at this
  refine ⟨hrun, hshape s, fun p name v hp => (hleads.after hp).1, fun p name v w hp hw hne => ?_,
    (hfollows s).2, fun name v r u h => assign_ok h,
    fun name dot r scopes output => runner_unseen e room name dot r scopes output⟩
  obtain ⟨hat, hnames⟩ := hleads.after hp
  have hvalue : w = Assignment.after p v trail := by
    rw [hat] at hw
    exact (congrArg Prod.snd (Option.some.inj hw)).symm
  rcases Assignment.after_eq_or p v trail with h | ⟨a, ha, hplace, h⟩
  · exact absurd (hvalue.trans h) hne
  · have hname : a.name = name := hnames a ha hplace
    exact ⟨a, ha, hname, (hvalue.trans h).symm, hname ▸ place?_innermost hplace⟩

/-- A template that looks for a variable of its caller. -/
def sharedNames : Environment where
  templates := [("part", { name := "part", nodes := [
    .action 1 .body { commands := [[.variable "x" []]] }] })]

/-- A branch that sets one variable, hides another one and runs a template, which does not see them. -/
def hidingBranch : Node :=
  .cond 1 false { commands := [[.const (.bool true)]] } [
    .action 2 .body { targets := ["x"], assigns := true, commands := [[.const (.int 5)]] },
    .action 3 .body { targets := ["y"], commands := [[.const (.int 7)]] },
    .action 4 .body { targets := ["y"], assigns := true, commands := [[.const (.int 8)]] },
    .template 5 "part" none] []

theorem branch_scoped_hidingBranch :
    let t : Template := { name := "page", nodes := [hidingBranch] }
    let s : State := { context := {}, scopes := [⟨.undefined, [("y", .int 2), ("x", .int 1)]⟩] }
    let act := node sharedNames (runner sharedNames 1) t hidingBranch
    hidingBranch.opensScope = true ∧
    (∃ f u, act s = .error f u ∧ f.cause = .undefinedVariable "x") ∧
    (act.final s).scopes.shape = s.scopes.shape ∧
    at? ⟨0, 0⟩ (act.final s).scopes = some ("x", .int 5) ∧
    at? ⟨0, 1⟩ (act.final s).scopes = some ("y", .int 2) := by
  intro t s act
  have h := branch_scoped sharedNames 1 t (n := hidingBranch) rfl s
  exact ⟨rfl, ⟨_, _, rfl, rfl⟩, h.2.1, h.2.2.1 ⟨0, 0⟩ "x" (.int 1) rfl,
    h.2.2.1 ⟨0, 1⟩ "y" (.int 2) rfl⟩

end Eval

end Stencil
