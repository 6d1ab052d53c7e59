import Stencil.Proofs.Entries
import Stencil.Proofs.Render.Alike
import Stencil.Proofs.Render.Control
import Stencil.Proofs.Render.Literal

/-!
# Layouts that only yield

A layout that does nothing but yield the main content adds nothing to it. While the main template is
rendered the layout is known already, but nothing looks at it except for the calls that open a block.

* `Template.OpensNoBlock` says that a template has no such call.
* `Run.Framed layout` relates a state to one that has a layout, and another log; `Render.framed_runner`
  says that templates without such calls do alike from the two.
* `Render.runTemplate_yielding` renders the layout.
* `Environment.render_yielding_layout` concludes that a rendering gives the same with the layout as
  without.
-/

namespace Stencil

open Render

/-- No pipeline of the template opens a block. -/
def Template.OpensNoBlock (t : Template) : Prop :=
  ∀ site ∈ t.sites, ∀ call ∈ site.2.calls, call.1 ≠ Composition.block.name

/-- The only node of the template is an action that yields without arguments. -/
def Template.OnlyYields (t : Template) : Prop :=
  ∃ line context, t.nodes =
    [.action line context { commands := [[.call Composition.yield.name]] }]

/-! ## The main template -/

namespace Run

variable {layout : String}

/-- The second state has the layout and any log, and is the first one otherwise. -/
def Framed (layout : String) (s s' : State) : Prop :=
  ∃ events, s' = { s with context := { s.context with layout := some layout }, events }

theorem congruence_framed : CallCongruence (Framed layout) where
  scopes := by rintro _ _ ⟨_, rfl⟩; rfl
  output := by rintro _ _ ⟨_, rfl⟩; rfl
  parent := by rintro _ _ ⟨_, rfl⟩; rfl
  setScopes := by rintro _ _ ⟨events, rfl⟩ _; exact ⟨events, rfl⟩
  setOutput := by rintro _ _ ⟨events, rfl⟩ _; exact ⟨events, rfl⟩
  setParent := by rintro _ _ ⟨events, rfl⟩ _; exact ⟨events, rfl⟩
  emit := by rintro _ _ ⟨events, rfl⟩ ev; exact ⟨ev :: events, rfl⟩
  main := by rintro _ _ ⟨_, rfl⟩; rfl
  mainContent := by rintro _ _ ⟨_, rfl⟩; rfl
  root := by rintro _ _ ⟨_, rfl⟩; rfl
  yields := by rintro _ _ ⟨_, rfl⟩; rfl
  blocks := by rintro _ _ ⟨_, rfl⟩; rfl
  setYields := by rintro _ _ ⟨events, rfl⟩ _; exact ⟨events, rfl⟩
  setBlocks := by rintro _ _ ⟨events, rfl⟩ _; exact ⟨events, rfl⟩

theorem nested_framed : Nested (Framed layout) (Framed layout) where
  depth := by rintro _ _ ⟨_, rfl⟩; rfl
  enter := by rintro _ _ ⟨events, rfl⟩ _; exact ⟨events, rfl⟩
  leave := by rintro _ _ _ _ ⟨_, rfl⟩ ⟨events, rfl⟩; exact ⟨events, rfl⟩

end Run

namespace Render

open Run

variable {e : Environment} {layout : String}

/-- **Templates that open no block do not notice a layout around them**, by induction on the room. -/
theorem framed_runner (he : ∀ name t, e.template name = .ok t → t.OpensNoBlock) (room : Nat) :
    ∀ name dot, Alike (Framed layout) (runner e room name dot) (runner e room name dot) := by
  have hcongruence : CallCongruence (Framed layout) := congruence_framed
  induction room with
  | zero => exact fun _ _ => .fail _
  | succ room ih =>
    refine alike_chain hcongruence.chain (fun _ _ => hcongruence.root) fun name dot => ?_
    refine alike_execute nested_framed hcongruence.toCongruence (fun _ _ _ _ t ht => ?_) dot
    refine Eval.alike_nodes hcongruence.toCongruence ih t t.nodes fun site hsite call hcall args _ => ?_
    refine Eval.alike_call ih hcongruence e call.1 (fun hblock => ?_) args
    exact absurd hblock (he name t ht site hsite call hcall)

/-! ## Renderings with and without a layout -/

section Main

variable {s : State} {main : String}

theorem renderMain_noMain (hmain : s.context.main = none) :
    renderMain e s = .error { cause := .noMain } s := by
  unfold renderMain
  rw [get_bind, hmain]
  rfl

theorem renderMain_alone (hmain : s.context.main = some main) (hlayout : s.context.layout = none) :
    renderMain e s = runTemplate e main s.root
      { s with events := .rendering main none :: s.events } := by
  unfold renderMain
  rw [get_bind, hmain, hlayout]
  rfl

theorem renderMain_framed (hmain : s.context.main = some main)
    (hlayout : s.context.layout = some layout) :
    renderMain e s = (runTemplate e main s.root >>= fun content => do
      modify fun s => { s with mainContent := some content, inLayout := true }
      runTemplate e layout s.root) { s with events := .rendering main (some layout) :: s.events } := by
  unfold renderMain
  rw [get_bind, hmain, hlayout]
  rfl

end Main

/-! ## The layout -/

theorem written_safeText (content : String) (escape : AutoEscape) (context : HtmlContext) :
    (Value.safeText content).written escape context = content := by
  cases escape <;> rfl

/-- What yields the main content writes it as it is. -/
theorem nodes_yielding {run : Runner} {t : Template} (ht : t.OnlyYields) {s : State}
    {content : String} (hcontent : s.mainContent = some content) :
    Eval.nodes e run t t.nodes s = .ok ⟨⟩ { s with output := s.output.write content } := by
  obtain ⟨line, context, hnodes⟩ := ht
  have hyield : Eval.compose run context .yield [] s = .ok (.safeText content) s := by
    change Eval.yieldMain run none s = _
    rw [Eval.yieldMain, get_bind, hcontent]
    rfl
  have hnode : Eval.node e run t (.action line context
      { commands := [[.call Composition.yield.name]] }) s =
        .ok ⟨⟩ { s with output := s.output.write content } :=
    (Eval.node_compose hyield).trans (by rw [written_safeText])
  rw [hnodes, Eval.nodes, bind_ok hnode]
  rfl

theorem runTemplate_yielding {t : Template} (hlayout : e.template layout = .ok t)
    (ht : t.OnlyYields) {s : State} {content : String} (hcontent : s.mainContent = some content)
    (hdepth : s.depth < maxDepth) (dot : Value) :
    runTemplate e layout dot s = .ok content s := by
  have hinside : ∀ u : State, u.mainContent = some content → u.output = {} →
      (do Eval.nodes e (runner e maxDepth) t t.nodes; finished) u =
        .ok content { u with output := { root := content } } := by
    intro u hu houtput
    have hwrite : Output.write {} content = { root := content } := by
      change ({ root := "" ++ content } : Output) = _
      rw [String.empty_append]
    rw [bind_ok (nodes_yielding ht hu), houtput, hwrite]
    rfl
  have hexecute : ∀ u : State, u.mainContent = some content → u.depth < maxDepth →
      execute e (runner e maxDepth) layout dot u = .ok content u :=
    fun u hu hdepth => execute_ok hlayout dot hdepth (hinside _ hu rfl)
  have hchain := hexecute { s with parent := none } hcontent hdepth
  change runChain (execute e (runner e maxDepth)) layout dot s = _
  unfold runChain Run.keepingParent
  rw [guarded_ok ((bind_ok hchain _).trans (followParents_none _ _ rfl))]

theorem runTemplate_resumes {name : String} {dot : Value} {s t : State} {text : String}
    (hrun : runTemplate e name dot s = .ok text t) : s.Resumes t := by
  have hresumes := runner_resumes e (maxDepth + 1) name dot s
  rw [final_of_ok (show runner e (maxDepth + 1) name dot s = .ok text t from hrun)] at hresumes
  exact hresumes

/-- A rendering ends alike with a layout that only yields and without one. -/
theorem framed_renderMain (he : ∀ name t, e.template name = .ok t → t.OpensNoBlock) {t : Template}
    (hlayout : e.template layout = .ok t) (ht : t.OnlyYields) {s s' : State} (hs : Framed layout s s')
    (hnone : s.context.layout = none) (hdepth : s.depth < maxDepth) :
    SameEnd (fun _ _ => True) (renderMain e s) (renderMain e s') := by
  have hmain' := congruence_framed.main hs
  have hlayout' : s'.context.layout = some layout := by
    obtain ⟨_, rfl⟩ := hs
    rfl
  cases hmain : s.context.main with
  | none =>
    rw [renderMain_noMain hmain, renderMain_noMain (hmain'.trans hmain)]
    exact .error trivial
  | some main =>
    rw [renderMain_alone hmain hnone, renderMain_framed (hmain'.trans hmain) hlayout',
      congruence_framed.root hs]
    have hstart : Framed layout { s with events := .rendering main none :: s.events }
        { s' with events := .rendering main (some layout) :: s'.events } := by
      obtain ⟨_, rfl⟩ := hs
      exact ⟨_, rfl⟩
    have hends : SameEnd (Framed layout) (runTemplate e main s.root _) (runTemplate e main s.root _) :=
      framed_runner he (maxDepth + 1) main s.root _ _ hstart
    obtain ⟨content, u, u', hrun, hrun', -⟩ | ⟨f, u, u', hrun, hrun', -⟩ := hends.cases
    · have hdepth' : u'.depth < maxDepth := by
        rw [(runTemplate_resumes hrun').depth]
        exact (nested_framed.depth hs).symm ▸ hdepth
      have hyielding := runTemplate_yielding hlayout ht
        (s := { u' with mainContent := some content, inLayout := true }) rfl hdepth' s.root
      rw [hrun, bind_ok hrun']
      change SameEnd _ _ (runTemplate e layout s.root _)
      rw [hyielding]
      exact .ok trivial
    · rw [hrun, bind_error hrun']
      exact .error trivial

end Render

namespace Environment

variable {e : Environment} {layout : String} {t : Template}

/-- **A layout that only yields is transparent**: where no template opens a block, rendering a context
with the layout gives the same text or the same fault as rendering it without a layout. -/
theorem render_yielding_layout (he : ∀ name t, e.template name = .ok t → t.OpensNoBlock)
    (hlayout : e.template layout = .ok t) (ht : t.OnlyYields) (c : RenderContext) :
    (e.render { c with layout := some layout }).1 = (e.render { c with layout := none }).1 := by
  have hstart : Run.Framed layout { context := { c with layout := none } }
      { context := { c with layout := some layout } } := ⟨[], rfl⟩
  have hends := framed_renderMain he hlayout ht hstart rfl (Nat.succ_pos _)
  unfold render EStateM.run
  generalize renderMain e { context := { c with layout := none } } = r at hends ⊢
  generalize renderMain e { context := { c with layout := some layout } } = r' at hends ⊢
  cases hends with
  | ok _ => rfl
  | error _ => rfl

/-- A page that fills a slot of the base it extends, and a layout that only yields. -/
def sidePages : Environment where
  templates := [
    ("around", { name := "around", nodes := [.action 1 .body { commands := [[.call "yield"]] }] }),
    ("base", { name := "base", nodes := [
      .text "<", .action 1 .body { commands := [[.call "yield", .const (.text "side")]] },
      .text ">"] }),
    ("page", { name := "page", nodes := [
      .action 1 .body { commands := [[.call "extends", .const (.text "base")]] },
      .action 2 .body { commands := [[.call "define_block", .const (.text "side")]] },
      .text "s", .action 4 .body { commands := [[.call "end_block"]] }] })]

theorem opensNoBlock_sidePages {name : String} {t : Template}
    (ht : sidePages.template name = .ok t) : t.OpensNoBlock := by
  have hmem := mem_of_template ht
  simp only [sidePages, List.mem_cons, Prod.mk.injEq, List.not_mem_nil, or_false] at hmem
  rcases hmem with ⟨-, rfl⟩ | ⟨-, rfl⟩ | ⟨-, rfl⟩
  all_goals
    unfold Template.OpensNoBlock
    decide

theorem render_yielding_layout_sidePages :
    (∀ name t, sidePages.template name = .ok t → t.OpensNoBlock) ∧
    (sidePages.render { main := some "page", layout := some "around" }).1 =
      (sidePages.render { main := some "page" }).1 ∧
    (sidePages.render { main := some "page" }).1 = .ok "<s>" := by
  have hlayout : sidePages.template "around" = .ok
    { name := "around", nodes := [.action 1 .body { commands := [[.call "yield"]] }] } := rfl
  refine ⟨fun _ _ => opensNoBlock_sidePages, ?_, rfl⟩
  exact render_yielding_layout (fun _ _ => opensNoBlock_sidePages) hlayout ⟨1, .body, rfl⟩
    { main := some "page" }

end Environment

end Stencil
