import Stencil.Proofs.Render.Ends
import Stencil.Render.Basic

/-!
# Templates of literal text

A template whose nodes are literal texts renders to these texts, whatever the environment, the data
and the slots are.

* `Eval.node_call` is a node with one composition call, the other simple kind of node.
* `Render.execute_literal` runs the nodes, `Environment.render_literal` renders them as the main
  template without a layout.
-/

namespace Stencil

namespace Eval

open Run Render

variable {e : Environment} {run : Runner} {t : Template}

theorem operands_const (context : HtmlContext) (args : List Value) (s : State) :
    operands e run context (args.map .const) s = .ok args s := by
  induction args with
  | nil => rfl
  | cons v vs ih =>
    rw [List.map_cons, operands, bind_ok (show operand e run context (.const v) s = .ok v s by
      rw [operand]; rfl), bind_ok ih]
    rfl

/-- A node with one call writes the value of the call. -/
theorem node_call (c : Composition) (context : HtmlContext) (args : List Value) (line : Nat) :
    node e run t (.action line context { commands := [.call c.name :: args.map .const] }) = (do
      let v ← Run.located t.name line (compose run context c args)
      Run.write (v.written t.escape context)) := by
  have hname : Composition.ofName? c.name = some c := by cases c <;> rfl
  have hcall : call e run context c.name args = compose run context c args := by
    unfold call
    rw [hname]
  have hoperands : operands e run context (args.map .const) = pure args :=
    funext (operands_const context args)
  have hcommands : commands e run context none [.call c.name :: args.map .const] =
      compose run context c args := by
    simp only [commands, command, hoperands, pure_bind, Option.toList_none, List.append_nil, hcall,
      Option.getD_some, bind_pure]
  have hpipeline : pipeline e run context { commands := [.call c.name :: args.map .const] } =
      compose run context c args := by
    simp only [pipeline, hcommands, Eval.bind, pure_bind, bind_pure]
  rw [node, hpipeline]
  rfl

section Compose

variable {c : Composition} {context : HtmlContext} {args : List Value} {s u : State}

theorem node_compose {line : Nat} {v : Value} (h : compose run context c args s = .ok v u) :
    node e run t (.action line context { commands := [.call c.name :: args.map .const] }) s =
      .ok ⟨⟩ { u with output := u.output.write (v.written t.escape context) } := by
  rw [node_call, bind_ok (located_ok h)]
  rfl

theorem node_compose_error {line : Nat} {f : Fault}
    (h : compose run context c args s = .error f u) :
    node e run t (.action line context { commands := [.call c.name :: args.map .const] }) s =
      .error (f.atPlace t.name line) u := by
  rw [node_call, bind_error (located_error h)]

end Compose

end Eval

namespace Render

variable {e : Environment} {run : Runner} {name : String} {t : Template} {texts : List String}

/-- Literal texts are written one after the other. -/
theorem nodes_literal (s : State) : Eval.nodes e run t (texts.map .text) s =
    .ok ⟨⟩ { s with output := texts.foldl Output.write s.output } := by
  induction texts generalizing s with
  | nil => rfl
  | cons text texts ih =>
    rw [List.map_cons, Eval.nodes, Run.bind_ok (show Eval.node e run t (.text text) s =
      .ok ⟨⟩ { s with output := s.output.write text } from rfl), ih]
    rfl

/-- Outside of all blocks a text goes to the output of the template. -/
theorem foldl_write (texts : List String) : ∀ root : String,
    texts.foldl Output.write { root } = { root := root ++ String.join texts } := by
  induction texts with
  | nil => exact fun root => by simp
  | cons text texts ih =>
    intro root
    have hwrite : Output.write { root } text = { root := root ++ text } := rfl
    rw [List.foldl_cons, hwrite, ih, String.join_cons, String.append_assoc]

/-- A template whose nodes succeed: the state around it is kept. -/
theorem execute_ok (ht : e.template name = .ok t) (dot : Value) {s u : State} {text : String}
    (hdepth : s.depth < maxDepth)
    (hrun : (do Eval.nodes e run t t.nodes; finished)
      { s with scopes := Scopes.start dot, output := {}, depth := s.depth + 1 } = .ok text u) :
    execute e run name dot s =
      .ok text { u with scopes := s.scopes, output := s.output, depth := u.depth - 1 } := by
  unfold execute
  rw [ht, Run.bind_ok (show Run.lift (.ok t) s = .ok t s from rfl),
    Run.bind_ok (show (get : Run State) s = .ok s s from rfl), if_neg (Nat.not_le.2 hdepth)]
  unfold Run.located Run.isolated
  rw [Run.guarded_ok hrun]

/-- A template of literal text leaves the state as it was. -/
theorem execute_literal (ht : e.template name = .ok t) (hnodes : t.nodes = texts.map .text)
    (dot : Value) {s : State} (hdepth : s.depth < maxDepth) :
    execute e run name dot s = .ok (String.join texts) s := by
  have hinside : ∀ s : State, s.output = {} →
      (do Eval.nodes e run t t.nodes; finished) s =
        .ok (String.join texts) { s with output := { root := String.join texts } } := by
    intro s hs
    rw [hnodes, Run.bind_ok (nodes_literal s), hs, foldl_write, String.empty_append]
    rfl
  rw [execute_ok ht dot hdepth (hinside _ rfl)]
  rfl

theorem followParents_none {exec : Runner} (n : Nat) (output : String) {s : State}
    (hs : s.parent = none) : followParents exec name n output s = .ok output s := by
  have htake : takeParent s = .ok none s := by
    change EStateM.Result.ok s.parent { s with parent := none } = _
    rw [← hs]
  cases n with
  | zero =>
    rw [followParents, Run.bind_ok htake]
    rfl
  | succ n =>
    rw [followParents, Run.bind_ok htake]
    rfl

theorem runChain_literal (ht : e.template name = .ok t) (hnodes : t.nodes = texts.map .text)
    (dot : Value) {s : State} (hdepth : s.depth < maxDepth) :
    runChain (execute e run) name dot s = .ok (String.join texts) s := by
  have hexecute : execute e run name dot { s with parent := none } =
      .ok (String.join texts) { s with parent := none } := execute_literal ht hnodes dot hdepth
  unfold runChain Run.keepingParent
  rw [Run.guarded_ok ((Run.bind_ok hexecute _).trans (followParents_none _ _ rfl))]

end Render

namespace Environment

/-- **A template of literal text renders to its texts.** -/
theorem render_literal {e : Environment} {name : String} {t : Template} {texts : List String}
    (ht : e.template name = .ok t) (hnodes : t.nodes = texts.map .text) (c : RenderContext) :
    (e.render { c with main := some name, layout := none }).1 = .ok (String.join texts) := by
  have hdepth : 0 < Render.maxDepth := by decide
  have hmain : Render.renderMain e { context := { c with main := some name, layout := none } } =
      .ok (String.join texts) { context := { c with main := some name, layout := none }
                                events := [.rendering name none] } :=
    Render.runChain_literal ht hnodes c.dot hdepth
  unfold render EStateM.run
  rw [hmain]

theorem template_put (e : Environment) (name : String) (t : Template) :
    (e.put name t).template name = .ok { t with escape := e.escaping name } := by
  unfold Environment.template put
  rw [Table.get?_insert, if_pos rfl]
  rfl

end Environment

end Stencil
