import Stencil.Proofs.Render.Composable

/-!
# What is under way when a rendering fails

A rendering that fails leaves off in the middle of something: of a node, of the template that the node
belongs to, of the node that runs this template, and so on outwards.

* `Backtrace.during` runs a stretch of a rendering, which is under way as long as it has not succeeded.
* `Backtrace.nodes`, `Backtrace.runner` and `Backtrace.renderMain` run templates and tell what is under
  way; `Environment.underway` are the stretches in which a whole rendering leaves off, the outermost
  first.
* `Backtrace.run_nodes`, `Backtrace.run_runner` and `Backtrace.run_renderMain` say that telling it changes
  nothing.
* `Backtrace.node_of_subject_error` says that a node is under way if its pipeline fails.
-/

namespace Stencil

/-- The line of a node; text has none. -/
def Node.line : Node → Nat
  | .text _ => 0
  | .action line .. | .cond line .. | .range line .. | .scope line .. | .template line .. => line

/-- The nodes that a node runs. -/
def Node.inner : Node → List Node
  | .text _ | .action .. | .template .. => []
  | .cond _ _ _ body otherwise | .range _ _ body otherwise | .scope _ _ body otherwise =>
    body ++ otherwise

namespace Backtrace

open Render Traced History

variable {α : Type}

/-- The stretches that begin in some moments. -/
def begun (H : List Moment) : List Stretch := H.filterMap fun m =>
  match m.deed with
  | .begins b => some b
  | _ => none

/-- Runs a computation as a stretch of the rendering. The stretch is under way if it fails, with all that
is under way inside it. -/
def during (b : Stretch) (act : Traced Moment α) : Traced Moment α := fun s =>
  match Traced.guarded b.enter b.leave act s with
  | (.ok a t, _) => (.ok a t, [])
  | (.error f t, trail) => (.error f t, ⟨.begins b, s⟩ :: trail)

/-! ## Nodes -/

section Nodes

variable (e : Environment) (run : Teller) (t : Template)

mutual

/-- Runs a node of the template `t`. -/
def node : Node → Traced Moment PUnit
  | .text s => during (.node (.text s)) (quiet (Run.write s))
  | .action line context p => during (.node (.action line context p)) do
    let v ← located t.name line (pipeline e run context p)
    if p.targets.isEmpty then quiet (Run.write (v.written t.escape context)) else pure ()
  | .cond line negated p body otherwise => during (.node (.cond line negated p body otherwise)) <|
    inScope Scopes.pushSame do
      let v ← located t.name line (pipeline e run .body p)
      if v.isTrue ≠ negated then inScope Scopes.pushSame (nodes body)
      else inScope Scopes.pushSame (nodes otherwise)
  | .range line p body otherwise => during (.node (.range line p body otherwise)) <|
    located t.name line <| inScope Scopes.pushSame do
      let v ← commands e run .body none p.commands
      let pairs ← quiet (Run.lift v.pairs)
      loop p.targets (nodes body) (inScope Scopes.pushSame (nodes otherwise)) pairs
  | .scope line p body otherwise => during (.node (.scope line p body otherwise)) <|
    inScope Scopes.pushSame do
      let v ← located t.name line (pipeline e run .body p)
      if v.isTrue then inScope (Scopes.push v) (nodes body)
      else inScope Scopes.pushSame (nodes otherwise)
  | .template line name p => during (.node (.template line name p)) do
    let dot ← match p with
      | some p => located t.name line (pipeline e run .body p)
      | none => pure .undefined
    let text ← located t.name line (run name dot)
    quiet (Run.write text)

/-- Runs some nodes of the template `t`. -/
def nodes : List Node → Traced Moment PUnit
  | [] => pure ()
  | n :: ns => do
    node n
    nodes ns

end

end Nodes

/-! ## Templates that run one another -/

/-- Runs the nodes of a template with some data. -/
def execute (e : Environment) (run : Teller) (name : String) (dot : Value) :
    Traced Moment String := do
  let t ← quiet (Run.lift (e.template name))
  let s ← quiet get
  if maxDepth ≤ s.depth then quiet (Run.fail .recursionLimit)
  else
    located t.name 0 <| during (.template t.name dot) do
      nodes e run t t.nodes
      quiet finished

/-- Runs a template and the templates that it extends. -/
def runChain (exec : Teller) (name : String) (dot : Value) : Traced Moment String :=
  during (.chain name) do
    let output ← exec name dot
    followParents exec name maxParents output

/-- Runs a template with `room` for it and for the templates that run inside it. -/
def runner (e : Environment) : (room : Nat) → Teller
  | 0 => fun _ _ => quiet (Run.fail .recursionLimit)
  | room + 1 => runChain (execute e (runner e room))

/-- Renders the main template, and the layout around it if there is one. -/
def renderMain (e : Environment) : Traced Moment String := do
  let s ← quiet get
  match s.context.main with
  | none => quiet (Run.fail .noMain)
  | some main =>
    quiet (Run.emit (.rendering main s.context.layout))
    match s.context.layout with
    | none => runner e (maxDepth + 1) main s.root
    | some layout =>
      let content ← runner e (maxDepth + 1) main s.root
      quiet (modify fun s => { s with mainContent := some content, inLayout := true })
      runner e (maxDepth + 1) layout s.root

/-! ## Telling what is under way changes nothing -/

theorem run_during (b : Stretch) (act : Traced Moment α) :
    (during b act).run = Run.guarded b.enter b.leave act.run := by
  funext s
  change (during b act s).1 = (Traced.guarded b.enter b.leave act s).1
  unfold during
  rcases Traced.guarded b.enter b.leave act s with ⟨_ | _, trail⟩
  · rfl
  · rfl

theorem run_during_node (n : Node) (act : Traced Moment α) : (during (.node n) act).run = act.run :=
  (run_during (.node n) act).trans (run_node_stretch n act)

section Nodes

variable (e : Environment) (run : Teller) (t : Template)

mutual

theorem run_node : ∀ n : Node, (node e run t n).run = Eval.node e run.runner t n
  | .text s => by rw [node, run_during_node, Eval.node]; rfl
  | .action line context p => by
    rw [node, run_during_node, run_bind, Eval.node]
    change (Run.located _ _ (pipeline e run context p).run >>= _) = _
    rw [run_pipeline]
    refine congrArg (Bind.bind _) (funext fun v => ?_)
    split
    · rfl
    · rfl
  | .cond line negated p body otherwise => by
    rw [node, run_during_node, run_branch, Eval.node]
    refine congrArg (Run.inScope _) (congrArg (Bind.bind _) (funext fun v => ?_))
    split
    · rw [run_inScope, run_nodes body]
    · rw [run_inScope, run_nodes otherwise]
  | .range line p body otherwise => by
    rw [node, run_during_node, Eval.node]
    change Run.located _ _ (Run.inScope _ (commands e run .body none p.commands >>=
      fun v => quiet _ >>= fun ps => _).run) = _
    rw [run_bind, run_commands]
    refine congrArg (Run.located _ _) (congrArg (Run.inScope _) (congrArg (Bind.bind _)
      (funext fun v => ?_)))
    rw [run_bind]
    refine congrArg (Bind.bind _) (funext fun ps => ?_)
    rw [run_loop, run_inScope, run_nodes body, run_nodes otherwise]
  | .scope line p body otherwise => by
    rw [node, run_during_node, run_branch, Eval.node]
    refine congrArg (Run.inScope _) (congrArg (Bind.bind _) (funext fun v => ?_))
    split
    · rw [run_inScope, run_nodes body]
    · rw [run_inScope, run_nodes otherwise]
  | .template line name none => by
    rw [node, run_during_node, run_bind, Eval.node]
    exact congrArg (Bind.bind _) (funext fun dot => run_bind _ _)
  | .template line name (some p) => by
    rw [node, run_during_node, run_bind, Eval.node]
    change (Run.located _ _ (pipeline e run .body p).run >>= _) = _
    rw [run_pipeline]
    exact congrArg (Bind.bind _) (funext fun dot => run_bind _ _)

/-- **Nodes do what they do, and it is told in which of them they leave off.** -/
theorem run_nodes : ∀ ns : List Node, (nodes e run t ns).run = Eval.nodes e run.runner t ns
  | [] => by rw [nodes, Eval.nodes]; rfl
  | n :: ns => by rw [nodes, run_bind, run_node n, Eval.nodes, run_nodes ns]

end

end Nodes

theorem run_execute (e : Environment) (run : Teller) (name : String) (dot : Value) :
    (execute e run name dot).run = Render.execute e run.runner name dot := by
  rw [execute, run_bind, Render.execute]
  refine congrArg (Bind.bind _) (funext fun t => ?_)
  rw [run_bind]
  refine congrArg (Bind.bind _) (funext fun s => ?_)
  split
  · rfl
  · change Run.located _ _ (during _ _).run = _
    rw [run_during, run_bind, run_nodes]
    rfl

theorem run_runChain (exec : Teller) (name : String) (dot : Value) :
    (runChain exec name dot).run = Render.runChain exec.runner name dot := by
  rw [runChain, run_during, run_bind]
  exact congrArg Run.keepingParent
    (congrArg (Bind.bind _) (funext (run_followParents exec name maxParents)))

/-- **Running a template does what it does, and tells where it leaves off.** -/
theorem run_runner (e : Environment) (room : Nat) :
    (runner e room).runner = Render.runner e room := by
  induction room with
  | zero => rfl
  | succ room ih =>
    funext name dot
    change (runChain (execute e (runner e room)) name dot).run = _
    have hexec : Teller.runner (execute e (runner e room)) =
        Render.execute e (Render.runner e room) := by
      funext name dot
      change (execute e (runner e room) name dot).run = _
      rw [run_execute, ih]
    rw [run_runChain, hexec]
    rfl

/-- **A rendering does what it does, and tells where it leaves off.** -/
theorem run_renderMain (e : Environment) : (renderMain e).run = Render.renderMain e := by
  have hrun (name : String) (dot : Value) :
      (runner e (maxDepth + 1) name dot).run = runTemplate e name dot :=
    congrFun (congrFun (run_runner e (maxDepth + 1)) name) dot
  rw [renderMain, run_bind, Render.renderMain]
  refine congrArg (Bind.bind _) (funext fun s => ?_)
  generalize s.context.main = main?, s.context.layout = layout?
  cases main? with
  | none => rfl
  | some main =>
    cases layout? with
    | none =>
      simp only [run_bind, hrun]
      rfl
    | some layout =>
      simp only [run_bind, hrun]
      rfl

/-! ## Where a node leaves off -/

section Subject

variable (e : Environment) (run : Teller)

/-- What a node evaluates before it does anything else. -/
def subject? : Node → Option (Traced Moment Value)
  | .text _ => none
  | .action _ context p => some (pipeline e run context p)
  | .cond _ _ p .. | .scope _ p .. => some (pipeline e run .body p)
  | .range _ p .. => some (commands e run .body none p.commands)
  | .template _ _ p => p.map (pipeline e run .body)

/-- The scopes in which a node does so. -/
def subjectScopes : Node → Scopes → Scopes
  | .cond .. | .range .. | .scope .. => Scopes.pushSame
  | .text _ | .action .. | .template .. => id

variable {α β : Type} {act : Traced Moment α} {s u : State} {f : Fault} {H : List Moment}

theorem bind_of_error (h : act s = (.error f u, H)) (k : α → Traced Moment β) :
    (act >>= k) s = (.error f u, H) := by
  change andThen act k s = _
  unfold andThen
  rw [h]

theorem located_of_error {template : String} {line : Nat} (h : act s = (.error f u, H)) :
    located template line act s = (.error (f.atPlace template line) u, H) := by
  have hrun : act.run s = .error f u := congrArg Prod.fst h
  unfold located
  rw [Run.located_error hrun, h]

theorem guarded_of_error {enter : State → State} {leave : State → State → State}
    (h : act (enter s) = (.error f u, H)) :
    Traced.guarded enter leave act s = (.error f (leave s u), H) := by
  have hrun : act.run (enter s) = .error f u := congrArg Prod.fst h
  unfold Traced.guarded
  rw [Run.guarded_error hrun, h]

theorem during_node_of_error {n : Node} (h : act s = (.error f u, H)) :
    during (.node n) act s = (.error f u, ⟨.begins (.node n), s⟩ :: H) := by
  have hguarded : Traced.guarded (Stretch.node n).enter (Stretch.node n).leave act s =
      (.error f u, H) := guarded_of_error h
  unfold during
  rw [hguarded]

/-- **A node whose pipeline fails is under way** around what is under way in the pipeline, and it gives its
place to the fault. -/
theorem node_of_subject_error (t : Template) {n : Node} {act : Traced Moment Value}
    (hact : subject? e run n = some act)
    (h : act { s with scopes := subjectScopes n s.scopes } = (.error f u, H)) :
    ∃ v, node e run t n s =
      (.error (f.atPlace t.name n.line) v, ⟨.begins (.node n), s⟩ :: H) := by
  cases n with
  | text text => cases hact
  | action line context p =>
    cases hact
    rw [node]
    exact ⟨_, during_node_of_error (bind_of_error (located_of_error h) _)⟩
  | cond line negated p body otherwise =>
    cases hact
    rw [node]
    exact ⟨_, during_node_of_error (guarded_of_error (bind_of_error (located_of_error h) _))⟩
  | range line p body otherwise =>
    cases hact
    rw [node]
    exact ⟨_, during_node_of_error (located_of_error (guarded_of_error (bind_of_error h _)))⟩
  | scope line p body otherwise =>
    cases hact
    rw [node]
    exact ⟨_, during_node_of_error (guarded_of_error (bind_of_error (located_of_error h) _))⟩
  | template line name p =>
    cases p with
    | none => cases hact
    | some p =>
      cases hact
      rw [node]
      exact ⟨_, during_node_of_error (bind_of_error (located_of_error h) _)⟩

end Subject

end Backtrace

/-- What is under way when the rendering of a context ends, the outermost first. -/
def Environment.underway (e : Environment) (c : RenderContext) : List Stretch :=
  Backtrace.begun (Backtrace.renderMain e { context := c }).2

end Stencil
