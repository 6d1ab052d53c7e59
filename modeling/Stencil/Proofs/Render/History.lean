import Stencil.Proofs.Render.Evaluation
import Stencil.Proofs.Render.Traced
import Stencil.Render.Basic

/-!
# The history of a rendering

A rendering, told moment by moment: what is done, and the state in which it is done.

* `Deed` lists what is done to the slots, the output and the running templates. What is left out are
  the variables and the log, so that between two moments nothing else changes.
* `History.nodes`, `History.runner` and `History.renderMain` run templates and record their moments;
  `Environment.history` is the history of a whole rendering.
* `History.run_nodes`, `History.run_runner` and `History.run_renderMain` say that the recording changes
  nothing.
-/

namespace Stencil

/-- A stretch of a rendering, with a beginning and an end. -/
inductive Stretch where
  /-- A node is run. -/
  | node (n : Node)
  /-- The nodes of a template are run with some data. -/
  | template (name : String) (dot : Value)
  /-- A template is run together with the templates that it extends. -/
  | chain (name : String)

namespace Stretch

open Render

/-- The state in which a stretch begins. -/
def enter : Stretch → State → State
  | .node _, s => s
  | .template _ dot, s =>
    { s with scopes := Scopes.start dot, output := {}, depth := s.depth + 1 }
  | .chain _, s => { s with parent := none }

/-- The state behind a stretch, from the state in front of it and the one in which it ends. -/
def leave : Stretch → State → State → State
  | .node _, _, t => t
  | .template .., s, t => { t with scopes := s.scopes, output := s.output, depth := t.depth - 1 }
  | .chain _, s, t => { t with parent := s.parent }

end Stretch

/-- What is done in a moment of a rendering. -/
inductive Deed where
  /-- A stretch begins. -/
  | begins (b : Stretch)
  /-- A stretch ends. -/
  | ends (b : Stretch)
  /-- A text is written. -/
  | writes (text : String)
  /-- A call in a context opens a block for a slot, and its text is captured. -/
  | captures (slot : String) (context : HtmlContext)
  /-- A block is opened whose text is dropped. -/
  | drops (slot : String)
  /-- A block is opened whose text is written. -/
  | passes (slot : String)
  /-- The innermost block is closed. -/
  | closes
  /-- A slot is mapped to a template. -/
  | maps (slot template : String)
  /-- The running template extends another one. -/
  | inherits (template : String)
  /-- The template that the last one extends is taken up. -/
  | takes

/-- A moment of a rendering. -/
structure Moment where
  /-- What is done. -/
  deed : Deed
  /-- The state in which it is done. -/
  state : Render.State

/-- How a template is run with its history. -/
abbrev Teller := String → Value → Traced Moment String

/-- How a template is run, without the history. -/
def Teller.runner (run : Teller) : Runner := fun name dot => (run name dot).run

namespace History

open Render Traced

variable {α : Type}

/-- Does something in a moment of its own. -/
def note (d : Deed) (act : Run α) : Traced Moment α := noted (⟨d, ·⟩) act

/-- Runs a computation as a stretch of the rendering. -/
def within (b : Stretch) (act : Traced Moment α) : Traced Moment α :=
  bracket (⟨.begins b, ·⟩) (⟨.ends b, ·⟩) b.enter b.leave act

/-! ## Calls -/

section Calls

variable (run : Teller) (context : HtmlContext)

/-- The output of another template as a value. -/
def ranTemplate (template : String) (dot : Value) : Traced Moment Value := do
  return .safeText (← run template dot)

/-- The main content: what the main template has written already, unless there is data for it. -/
def yieldMain (data : Option Value) : Traced Moment Value := do
  let s ← quiet get
  match data, s.mainContent with
  | none, some content => return .safeText content
  | _, _ =>
    match s.context.main with
    | none => quiet (Run.fail .noMainToYield)
    | some main => ranTemplate run main (data.getD s.root)

/-- The content of a slot: its template, its block, or the fallback. -/
def yieldSlot (slot : String) (data : Option Value) (fallback : Option String) :
    Traced Moment Value := do
  let s ← quiet get
  let dot := data.getD s.root
  match Table.get? slot s.context.yields, Table.get? slot s.context.blocks, fallback with
  | some template, _, _ => do
    quiet (Run.emit (.yieldTemplate slot template))
    ranTemplate run template dot
  | none, some b, _ => do
    quiet (Run.emit (.yieldBlock slot))
    return .safeText (← quiet (Run.lift (Eval.blockContent slot b context)))
  | none, none, some template => do
    quiet (Run.emit (.yieldFallback slot template))
    ranTemplate run template dot
  | none, none, none => return Eval.nothing

/-- Evaluates `yield`. -/
def yieldContent (args : List Value) : Traced Moment Value := do
  match args with
  | .string slot _ :: rest =>
    let (data, fallback) ← quiet (Run.lift (Eval.yieldArgs none none rest))
    yieldSlot run context slot data fallback
  | args =>
    let (data, _) ← quiet (Run.lift (Eval.yieldArgs none none args))
    yieldMain run data

/-- Opens a block: its text is captured, replaced by the content of the slot, or written. -/
def openBlock (slot : String) : Traced Moment PUnit := do
  let s ← quiet get
  if s.isCapturing then note (.captures slot context) (Eval.capture slot context)
  else
    match Table.get? slot s.context.yields, Table.get? slot s.context.blocks with
    | some template, _ => do
      quiet (Run.emit (.blockTemplate slot template))
      let text ← run template s.root
      note (.writes text) (Run.write text)
      note (.drops slot) (Eval.pushFrame .discard)
    | none, some b => do
      quiet (Run.emit (.blockContent slot))
      let text ← quiet (Run.lift (Eval.blockContent slot b context))
      note (.writes text) (Run.write text)
      note (.drops slot) (Eval.pushFrame .discard)
    | none, none => note (.passes slot) (Eval.pushFrame .through)

/-- Evaluates a composition call. -/
def compose (c : Composition) (args : List Value) : Traced Moment Value := do
  match c with
  | .yield => yieldContent run context args
  | .contentFor =>
    match args with
    | [.string slot _, .string template _] =>
      quiet (Run.emit (.slotMapped slot template))
      note (.maps slot template)
        (modify fun s => { s with context := s.context.mapSlot slot template })
      return Eval.nothing
    | _ => quiet (Run.fail (.expects c.name .slotAndTemplate))
  | .block =>
    let slot ← quiet (Run.lift (Eval.stringArg c .slot args))
    openBlock run context slot
    return Eval.nothing
  | .defineBlock =>
    let slot ← quiet (Run.lift (Eval.stringArg c .slot args))
    note (.captures slot context) (Eval.capture slot context)
    return Eval.nothing
  | .endBlock =>
    note .closes Eval.closeBlock
    return Eval.nothing
  | .extend =>
    let template ← quiet (Run.lift (Eval.stringArg c .template args))
    note (.inherits template)
      (modify fun s => { s with parent := some template, output := s.output.discardRoot })
    return Eval.nothing
  | .exec =>
    let template ← quiet (Run.lift (Eval.stringArg c .template args))
    let s ← quiet get
    ranTemplate run template ((args[1]?).getD s.root)
  | .rootDot => do
    let s ← quiet get
    return s.root
  | .fallback =>
    let template ← quiet (Run.lift (Eval.stringArg c .template args))
    return .fallback template

end Calls

/-- Evaluates a call. -/
def call (e : Environment) (run : Teller) (context : HtmlContext) (name : String)
    (args : List Value) : Traced Moment Value :=
  match Composition.ofName? name with
  | some c => compose run context c args
  | none =>
    match Table.get? name e.functions with
    | some f => quiet (Run.attempt (f args))
    | none => quiet (Run.fail (.unknownFunction name))

/-! ## Pipelines -/

section Pipelines

variable (e : Environment) (run : Teller) (context : HtmlContext)

mutual

/-- Evaluates an operand. -/
def operand : Expr → Traced Moment Value
  | .call name => call e run context name []
  | .group ⟨_, _, cs⟩ fields => do
    let v ← commands none cs
    quiet (Run.lift (v.fields fields))
  | .dot => quiet (Eval.operand e run.runner context .dot)
  | .field names => quiet (Eval.operand e run.runner context (.field names))
  | .variable name fields => quiet (Eval.operand e run.runner context (.variable name fields))
  | .const v => quiet (Eval.operand e run.runner context (.const v))

/-- Evaluates the operands of a command from left to right. -/
def operands : List Expr → Traced Moment (List Value)
  | [] => return []
  | x :: xs => do
    let v ← operand x
    let vs ← operands xs
    return v :: vs

/-- Evaluates a command, with the value that a pipe passes on to it. -/
def command (last : Option Value) : List Expr → Traced Moment Value
  | .call name :: xs => do
    let args ← operands xs
    call e run context name (args ++ last.toList)
  | [x] => if last.isNone then operand x else quiet (Run.fail .argumentToValue)
  | [] => quiet (Run.fail .emptyCommand)
  | _ => quiet (Run.fail .argumentToValue)

/-- Evaluates commands, each with the value of the one before it. -/
def commands (last : Option Value) : List (List Expr) → Traced Moment Value
  | [] => return last.getD .undefined
  | c :: cs => do
    let v ← command last c
    commands (some v) cs

end

/-- Evaluates a pipeline. -/
def pipeline (p : Pipeline) : Traced Moment Value := do
  let v ← commands e run context none p.commands
  quiet (Eval.bind p.assigns v p.targets)
  return v

end Pipelines

/-! ## Nodes -/

section Nodes

variable (e : Environment) (run : Teller) (t : Template)

mutual

/-- Runs a node of the template `t`. -/
def node : Node → Traced Moment PUnit
  | .text s => within (.node (.text s)) (note (.writes s) (Run.write s))
  | .action line context p => within (.node (.action line context p)) do
    let v ← located t.name line (pipeline e run context p)
    if p.targets.isEmpty then
      note (.writes (v.written t.escape context)) (Run.write (v.written t.escape context))
    else pure ()
  | .cond line negated p body otherwise => within (.node (.cond line negated p body otherwise)) <|
    inScope Scopes.pushSame do
      let v ← located t.name line (pipeline e run .body p)
      if v.isTrue ≠ negated then inScope Scopes.pushSame (nodes body)
      else inScope Scopes.pushSame (nodes otherwise)
  | .range line p body otherwise => within (.node (.range line p body otherwise)) <|
    located t.name line <| inScope Scopes.pushSame do
      let v ← commands e run .body none p.commands
      let pairs ← quiet (Run.lift v.pairs)
      loop p.targets (nodes body) (inScope Scopes.pushSame (nodes otherwise)) pairs
  | .scope line p body otherwise => within (.node (.scope line p body otherwise)) <|
    inScope Scopes.pushSame do
      let v ← located t.name line (pipeline e run .body p)
      if v.isTrue then inScope (Scopes.push v) (nodes body)
      else inScope Scopes.pushSame (nodes otherwise)
  | .template line name p => within (.node (.template line name p)) do
    let dot ← match p with
      | some p => located t.name line (pipeline e run .body p)
      | none => pure .undefined
    let text ← located t.name line (run name dot)
    note (.writes text) (Run.write text)

/-- Runs some nodes of the template `t`. -/
def nodes : List Node → Traced Moment PUnit
  | [] => pure ()
  | n :: ns => do
    node n
    nodes ns

end

end Nodes

/-! ## Templates that run one another -/

/-- Runs the nodes of a template with some data. -/
def execute (e : Environment) (run : Teller) (name : String) (dot : Value) :
    Traced Moment String := do
  let t ← quiet (Run.lift (e.template name))
  let s ← quiet get
  if maxDepth ≤ s.depth then quiet (Run.fail .recursionLimit)
  else
    located t.name 0 <| within (.template name dot) do
      nodes e run t t.nodes
      quiet finished

/-- Runs the parent of the template that has run, and its parent in turn. -/
def followParents (exec : Teller) (name : String) : Nat → String → Traced Moment String
  | 0, output => do
    match ← note .takes takeParent with
    | none => return output
    | some _ => quiet (Run.fail (.extendsTooMany name))
  | n + 1, output => do
    match ← note .takes takeParent with
    | none => return output
    | some parent =>
      quiet (Run.emit (.renderingParent parent name))
      let s ← quiet get
      let output ← exec parent s.root
      followParents exec name n output

/-- Runs a template and the templates that it extends. -/
def runChain (exec : Teller) (name : String) (dot : Value) : Traced Moment String :=
  within (.chain name) do
    let output ← exec name dot
    followParents exec name maxParents output

/-- Runs a template with `room` for it and for the templates that run inside it. -/
def runner (e : Environment) : (room : Nat) → Teller
  | 0 => fun _ _ => quiet (Run.fail .recursionLimit)
  | room + 1 => runChain (execute e (runner e room))

/-- Renders the main template, and the layout around it if there is one. -/
def renderMain (e : Environment) : Traced Moment String := do
  let s ← quiet get
  match s.context.main with
  | none => quiet (Run.fail .noMain)
  | some main =>
    quiet (Run.emit (.rendering main s.context.layout))
    match s.context.layout with
    | none => runner e (maxDepth + 1) main s.root
    | some layout =>
      let content ← runner e (maxDepth + 1) main s.root
      quiet (modify fun s => { s with mainContent := some content, inLayout := true })
      runner e (maxDepth + 1) layout s.root

/-! ## The history changes nothing -/

theorem run_node_stretch (n : Node) (act : Traced Moment α) :
    (within (.node n) act).run = act.run := by
  funext s
  change Run.guarded id (fun _ t => t) act.run s = act.run s
  unfold Run.guarded
  cases h : act.run s with
  | ok a t => rw [id, h]
  | error f t => rw [id, h]

section Calls

variable (run : Teller) (context : HtmlContext)

theorem run_ranTemplate (template : String) (dot : Value) :
    (ranTemplate run template dot).run = Eval.ranTemplate run.runner template dot :=
  run_bind _ _

theorem run_yieldMain (data : Option Value) :
    (yieldMain run data).run = Eval.yieldMain run.runner data := by
  rw [yieldMain, run_bind, Eval.yieldMain]
  refine congrArg (Bind.bind _) (funext fun s => ?_)
  generalize s.mainContent = content, s.context.main = main
  match data, content, main with
  | none, some _, _ => rfl
  | none, none, none => rfl
  | none, none, some _ => exact run_ranTemplate run _ _
  | some _, _, none => rfl
  | some _, _, some _ => exact run_ranTemplate run _ _

theorem run_yieldSlot (slot : String) (data : Option Value) (fallback : Option String) :
    (yieldSlot run context slot data fallback).run =
      Eval.yieldSlot run.runner context slot data fallback := by
  rw [yieldSlot, run_bind, Eval.yieldSlot]
  refine congrArg (Bind.bind _) (funext fun s => ?_)
  generalize Table.get? slot s.context.yields = template?, Table.get? slot s.context.blocks = block?
  match template?, block?, fallback with
  | some _, _, _ => simp only [run_bind, run_ranTemplate]; rfl
  | none, some _, _ => simp only [run_bind]; rfl
  | none, none, some _ => simp only [run_bind, run_ranTemplate]; rfl
  | none, none, none => rfl

theorem run_yieldContent (args : List Value) :
    (yieldContent run context args).run = Eval.yieldContent run.runner context args := by
  unfold yieldContent Eval.yieldContent
  cases args with
  | nil =>
    simp only [run_bind, run_yieldMain]
    rfl
  | cons v rest =>
    cases v with
    | string slot safe =>
      simp only [run_bind, run_yieldSlot]
      rfl
    | _ =>
      simp only [run_bind, run_yieldMain]
      rfl

theorem run_openBlock (slot : String) :
    (openBlock run context slot).run = Eval.openBlock run.runner context slot := by
  rw [openBlock, run_bind, Eval.openBlock]
  refine congrArg (Bind.bind _) (funext fun s => ?_)
  generalize Table.get? slot s.context.yields = template?, Table.get? slot s.context.blocks = block?
  split
  · rfl
  · match template?, block? with
    | some _, _ => simp only [run_bind]; rfl
    | none, some _ => simp only [run_bind]; rfl
    | none, none => rfl

theorem run_compose (c : Composition) (args : List Value) :
    (compose run context c args).run = Eval.compose run.runner context c args := by
  cases c with
  | yield => exact run_yieldContent run context args
  | contentFor =>
    by_cases h : ∃ slot safe template safe', args = [.string slot safe, .string template safe']
    · obtain ⟨slot, safe, template, safe', rfl⟩ := h
      simp only [compose, Eval.compose, run_bind]
      rfl
    · -- neither of the two calls knows these arguments
      have hrecorded : compose run context .contentFor args =
          quiet (Run.fail (.expects Composition.contentFor.name .slotAndTemplate)) := by
        simp only [compose]
        split
        · exact absurd ⟨_, _, _, _, rfl⟩ h
        · rfl
      have hplain : Eval.compose run.runner context .contentFor args =
          Run.fail (.expects Composition.contentFor.name .slotAndTemplate) := by
        simp only [Eval.compose]
        split
        · exact absurd ⟨_, _, _, _, rfl⟩ h
        · rfl
      rw [hrecorded, hplain]
      rfl
  | block =>
    simp only [compose, Eval.compose, run_bind, run_openBlock]
    rfl
  | defineBlock =>
    simp only [compose, Eval.compose, run_bind]
    rfl
  | endBlock => exact run_bind _ _
  | extend =>
    simp only [compose, Eval.compose, run_bind]
    rfl
  | exec =>
    simp only [compose, Eval.compose, run_bind, run_ranTemplate]
    rfl
  | rootDot => exact run_bind _ _
  | fallback => exact run_bind _ _

end Calls

section Pipelines

variable (e : Environment) (run : Teller) (context : HtmlContext)

theorem run_call (name : String) (args : List Value) :
    (call e run context name args).run = Eval.call e run.runner context name args := by
  unfold call Eval.call
  generalize Composition.ofName? name = c?, Table.get? name e.functions = f?
  match c?, f? with
  | some c, _ => exact run_compose run context c args
  | none, some _ => rfl
  | none, none => rfl

/-- An operand that calls no function gives its value, unless a value is piped into it. -/
theorem command_single {x : Expr} (hx : ∀ name, x ≠ .call name) (last : Option Value) :
    command e run context last [x] =
      if last.isNone then operand e run context x else quiet (Run.fail .argumentToValue) := by
  rw [command]
  exact hx

theorem command_many {x : Expr} (hx : ∀ name, x ≠ .call name) (last : Option Value) (y : Expr)
    (ys : List Expr) :
    command e run context last (x :: y :: ys) = quiet (Run.fail .argumentToValue) := by
  rw [command]
  · exact fun name xs h => hx name (List.cons.inj h).1
  · exact fun z h => nomatch (List.cons.inj h).2
  · exact fun h => nomatch h

mutual

theorem run_operand : ∀ x : Expr,
    (operand e run context x).run = Eval.operand e run.runner context x
  | .dot | .field _ | .variable _ _ | .const _ => by rw [operand]; rfl
  | .call name => by rw [operand, run_call, Eval.operand]
  | .group ⟨_, _, cs⟩ fields => by
    rw [operand, run_bind, run_commands none cs, Eval.operand]
    rfl

theorem run_operands : ∀ xs : List Expr,
    (operands e run context xs).run = Eval.operands e run.runner context xs
  | [] => by rw [operands, Eval.operands]; rfl
  | x :: xs => by
    rw [operands, run_bind, run_operand x, Eval.operands]
    refine congrArg (Bind.bind _) (funext fun v => ?_)
    rw [run_bind, run_operands xs]
    rfl

theorem run_command (last : Option Value) : ∀ c : List Expr,
    (command e run context last c).run = Eval.command e run.runner context last c
  | [] => by rw [command, Eval.command]; rfl
  | x :: xs => by
    by_cases hcall : ∃ name, x = .call name
    · obtain ⟨name, rfl⟩ := hcall
      rw [command, run_bind, run_operands xs, Eval.command]
      exact congrArg (Bind.bind _) (funext fun args => run_call e run context name _)
    · have hx : ∀ name, x ≠ .call name := fun name hn => hcall ⟨name, hn⟩
      cases xs with
      | nil =>
        rw [command_single e run context hx, Eval.command_single hx]
        split
        · exact run_operand x
        · rfl
      | cons y ys =>
        rw [command_many e run context hx, Eval.command_many hx]
        rfl

theorem run_commands (last : Option Value) : ∀ cs : List (List Expr),
    (commands e run context last cs).run = Eval.commands e run.runner context last cs
  | [] => by rw [commands, Eval.commands]; rfl
  | c :: cs => by
    rw [commands, run_bind, run_command last c, Eval.commands]
    exact congrArg (Bind.bind _) (funext fun v => run_commands (some v) cs)

end

theorem run_pipeline (p : Pipeline) :
    (pipeline e run context p).run = Eval.pipeline e run.runner context p := by
  rw [pipeline, run_bind, run_commands, Eval.pipeline]
  exact congrArg (Bind.bind _) (funext fun v => run_bind _ _)

end Pipelines

section Nodes

variable (e : Environment) (run : Teller) (t : Template)

/-- The subject of a branch, and what follows from its value. -/
theorem run_branch (line : Nat) (p : Pipeline) (k : Value → Traced Moment PUnit) :
    (inScope Scopes.pushSame do
      let v ← located t.name line (pipeline e run .body p)
      k v).run = Run.inScope Scopes.pushSame
        (Run.located t.name line (Eval.pipeline e run.runner .body p) >>= fun v => (k v).run) := by
  rw [run_inScope, run_bind]
  change Run.inScope _ (Run.located _ _ (pipeline e run .body p).run >>= _) = _
  rw [run_pipeline]

mutual

theorem run_node : ∀ n : Node, (node e run t n).run = Eval.node e run.runner t n
  | .text s => by rw [node, run_node_stretch, Eval.node]; rfl
  | .action line context p => by
    rw [node, run_node_stretch, run_bind, Eval.node]
    change (Run.located _ _ (pipeline e run context p).run >>= _) = _
    rw [run_pipeline]
    refine congrArg (Bind.bind _) (funext fun v => ?_)
    split
    · rfl
    · rfl
  | .cond line negated p body otherwise => by
    rw [node, run_node_stretch, run_branch, Eval.node]
    refine congrArg (Run.inScope _) (congrArg (Bind.bind _) (funext fun v => ?_))
    split
    · rw [run_inScope, run_nodes body]
    · rw [run_inScope, run_nodes otherwise]
  | .range line p body otherwise => by
    rw [node, run_node_stretch, Eval.node]
    change Run.located _ _ (Run.inScope _ (commands e run .body none p.commands >>=
      fun v => quiet _ >>= fun ps => _).run) = _
    rw [run_bind, run_commands]
    refine congrArg (Run.located _ _) (congrArg (Run.inScope _) (congrArg (Bind.bind _)
      (funext fun v => ?_)))
    rw [run_bind]
    refine congrArg (Bind.bind _) (funext fun ps => ?_)
    rw [run_loop, run_inScope, run_nodes body, run_nodes otherwise]
  | .scope line p body otherwise => by
    rw [node, run_node_stretch, run_branch, Eval.node]
    refine congrArg (Run.inScope _) (congrArg (Bind.bind _) (funext fun v => ?_))
    split
    · rw [run_inScope, run_nodes body]
    · rw [run_inScope, run_nodes otherwise]
  | .template line name none => by
    rw [node, run_node_stretch, run_bind, Eval.node]
    exact congrArg (Bind.bind _) (funext fun dot => run_bind _ _)
  | .template line name (some p) => by
    rw [node, run_node_stretch, run_bind, Eval.node]
    change (Run.located _ _ (pipeline e run .body p).run >>= _) = _
    rw [run_pipeline]
    exact congrArg (Bind.bind _) (funext fun dot => run_bind _ _)

/-- **Nodes do with a history what they do without.** -/
theorem run_nodes : ∀ ns : List Node, (nodes e run t ns).run = Eval.nodes e run.runner t ns
  | [] => by rw [nodes, Eval.nodes]; rfl
  | n :: ns => by rw [nodes, run_bind, run_node n, Eval.nodes, run_nodes ns]

end

end Nodes

theorem run_execute (e : Environment) (run : Teller) (name : String) (dot : Value) :
    (execute e run name dot).run = Render.execute e run.runner name dot := by
  rw [execute, run_bind, Render.execute]
  refine congrArg (Bind.bind _) (funext fun t => ?_)
  rw [run_bind]
  refine congrArg (Bind.bind _) (funext fun s => ?_)
  split
  · rfl
  · change Run.located _ _ (Run.isolated dot (nodes e run t t.nodes >>= fun _ => quiet _).run) = _
    rw [run_bind, run_nodes]
    rfl

theorem run_followParents (exec : Teller) (name : String) (n : Nat) : ∀ output,
    (followParents exec name n output).run =
      Render.followParents exec.runner name n output := by
  induction n with
  | zero =>
    intro output
    rw [followParents, run_bind, Render.followParents]
    refine congrArg (Bind.bind _) (funext fun parent => ?_)
    cases parent with
    | none => rfl
    | some _ => rfl
  | succ n ih =>
    intro output
    rw [followParents, run_bind, Render.followParents]
    refine congrArg (Bind.bind _) (funext fun parent => ?_)
    cases parent with
    | none => rfl
    | some parent =>
      simp only [run_bind, ih]
      rfl

theorem run_runChain (exec : Teller) (name : String) (dot : Value) :
    (runChain exec name dot).run = Render.runChain exec.runner name dot := by
  change Run.keepingParent (exec name dot >>= followParents exec name maxParents).run = _
  rw [run_bind]
  exact congrArg Run.keepingParent
    (congrArg (Bind.bind _) (funext (run_followParents exec name maxParents)))

/-- **Running a template does with a history what it does without.** -/
theorem run_runner (e : Environment) (room : Nat) :
    (runner e room).runner = Render.runner e room := by
  induction room with
  | zero => rfl
  | succ room ih =>
    funext name dot
    change (runChain (execute e (runner e room)) name dot).run = _
    have hexec : Teller.runner (execute e (runner e room)) =
        Render.execute e (Render.runner e room) := by
      funext name dot
      change (execute e (runner e room) name dot).run = _
      rw [run_execute, ih]
    rw [run_runChain, hexec]
    rfl

/-- **A rendering does with a history what it does without.** -/
theorem run_renderMain (e : Environment) : (renderMain e).run = Render.renderMain e := by
  have hrun (name : String) (dot : Value) :
      (runner e (maxDepth + 1) name dot).run = runTemplate e name dot :=
    congrFun (congrFun (run_runner e (maxDepth + 1)) name) dot
  rw [renderMain, run_bind, Render.renderMain]
  refine congrArg (Bind.bind _) (funext fun s => ?_)
  generalize s.context.main = main?, s.context.layout = layout?
  match main?, layout? with
  | none, _ => rfl
  | some main, none =>
    simp only [run_bind, hrun]
    rfl
  | some main, some layout =>
    simp only [run_bind, hrun]
    rfl

end History

/-- The history of the rendering of a context. -/
def Environment.history (e : Environment) (c : RenderContext) : List Moment :=
  (History.renderMain e { context := c }).2

end Stencil
