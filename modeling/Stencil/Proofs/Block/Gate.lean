import Mathlib
import Stencil.Proofs.Block.Refill
import Stencil.Proofs.Render.Ignores
import Stencil.Render.Basic

/-!
# The gate of blocks

A block is made for a context, and its kind says which ones accept it. Whoever yields or opens a block
in another context is refused; what was yielded where it is accepted is a text like any other.

* `Eval.yieldSlot_refused` and `Eval.openBlock_refused` are the gate.
* `Eval.ignores_call` says that a call ignores the content of a block, unless it is about its slot in a
  context that accepts it; `Render.ignores_renderMain` concludes for whole renderings.
* `Environment.refused_contexts_ignore_block` puts these together, and
  `Environment.accepted_content_reaches_script` shows what the gate does not see.
-/

namespace Stencil

open RenderContext

namespace Eval

open Render Run

variable {e : Environment} {run : Runner} {slot text : String} {kind : BlockKind}

/-! ## The gate -/

/-- A context that the kind of a block refuses is told from its kind alone. -/
theorem blockContent_of_refused (key : String) {b : Block} {context : HtmlContext}
    (h : b.kind.accepts context = false) :
    blockContent key b context = throw (.wrongContext key b.kind context) := by
  unfold blockContent
  rw [h]
  rfl

theorem yieldSlot_refused {context : HtmlContext} {s : State} (href : kind.accepts context = false)
    (hs : s.context.Fills slot kind) (hyields : Table.get? slot s.context.yields = none)
    (data : Option Value) (fallback : Option String) :
    ∃ t, yieldSlot run context slot data fallback s =
      .error { cause := .wrongContext slot kind context } t := by
  obtain ⟨b, hb, rfl⟩ := hs
  refine ⟨{ s with events := .yieldBlock slot :: s.events }, ?_⟩
  rw [yieldSlot, Run.get_bind, hyields, hb]
  simp only [blockContent_of_refused slot href]
  rfl

theorem openBlock_refused {context : HtmlContext} {s : State} (href : kind.accepts context = false)
    (hs : s.context.Fills slot kind) (hyields : Table.get? slot s.context.yields = none)
    (hcapturing : s.isCapturing = false) :
    ∃ t, openBlock run context slot s = .error { cause := .wrongContext slot kind context } t := by
  obtain ⟨b, hb, rfl⟩ := hs
  refine ⟨{ s with events := .blockContent slot :: s.events }, ?_⟩
  rw [openBlock, Run.get_bind, hcapturing, hyields, hb]
  simp only [blockContent_of_refused slot href]
  rfl

/-- A slot is empty on both sides of the change or reads the same, unless the content that is changed
is asked for in a context that its kind accepts. -/
theorem blockContent_refill (text : String) {key : String} {context : HtmlContext} {c : RenderContext}
    (hc : c.Fills slot kind) (h : key = slot → kind.accepts context = false) :
    (Table.get? key c.blocks = none ∧ Table.get? key (c.refill slot text).blocks = none) ∨
      ∃ b b', Table.get? key c.blocks = some b ∧
        Table.get? key (c.refill slot text).blocks = some b' ∧
        blockContent key b' context = blockContent key b context := by
  by_cases hkey : key = slot
  · obtain ⟨b, hb, hkind⟩ := hc
    subst hkey
    have href : b.kind.accepts context = false := hkind ▸ h rfl
    refine .inr ⟨b, { b with content := text }, hb, get?_refill_self hb, ?_⟩
    rw [blockContent_of_refused key href]
    exact blockContent_of_refused key (b := { b with content := text }) href
  · rw [get?_refill_of_ne hkey]
    cases hb : Table.get? key c.blocks with
    | none => exact .inl ⟨rfl, rfl⟩
    | some b => exact .inr ⟨b, b, rfl, rfl, rfl⟩

/-! ## Calls -/

theorem stringArg_eq_ok {c : Composition} {expected : Expected} {args : List Value} {key : String}
    (h : stringArg c expected args = .ok key) : args.head?.bind Value.asString? = some key := by
  unfold stringArg at h
  split at h
  · next s hs =>
    cases h
    exact hs
  · cases h

section Calls

variable (hrun : ∀ name dot, Ignores (Fills slot kind) (refill slot text) (run name dot))
  {context : HtmlContext}

theorem ignores_closeBlock : Ignores (Fills slot kind) (refill slot text) closeBlock := by
  refine .getAt fun s hs => ?_
  have houtput : (s.mapContext (refill slot text)).output = s.output := rfl
  have hcontext : (s.mapContext (refill slot text)).context = s.context.refill slot text := rfl
  dsimp only
  rw [houtput, hcontext]
  rcases s.output.pop with ⟨frame, output⟩
  match frame with
  | none => exact ⟨hs, rfl⟩
  | some .discard => exact ⟨hs, rfl⟩
  | some .through => exact ⟨hs, rfl⟩
  | some (.capture key kind' content) =>
    dsimp only
    rw [isClaimed_refill]
    split
    · exact ⟨hs, rfl⟩
    · next hclaimed =>
      have hne : key ≠ slot := fun h => hclaimed (h ▸ hs.isClaimed)
      rw [fillSlot_refill hne]
      exact ⟨hs.fillSlot hne _, rfl⟩

include hrun

theorem ignores_ranTemplate (template : String) (dot : Value) :
    Ignores (Fills slot kind) (refill slot text) (ranTemplate run template dot) :=
  .bind (hrun template dot) fun _ => .pure _

theorem ignores_yieldMain (data : Option Value) :
    Ignores (Fills slot kind) (refill slot text) (yieldMain run data) := by
  refine .getState (fun _ _ => rfl) fun s _ => ?_
  split
  · exact .pure _
  · split
    · exact .fail _
    · exact ignores_ranTemplate hrun _ _

section Key

variable {key : String} (hkey : key = slot → kind.accepts context = false)

include hkey

theorem ignores_yieldSlot (data : Option Value) (fallback : Option String) :
    Ignores (Fills slot kind) (refill slot text) (yieldSlot run context key data fallback) := by
  refine .getState (fun s hs => ?_) fun s hs => ?_
  · have hyields : (s.mapContext (refill slot text)).context.yields = s.context.yields := rfl
    have hblocks : (s.mapContext (refill slot text)).context.blocks =
      (s.context.refill slot text).blocks := rfl
    dsimp only
    rw [hyields, hblocks]
    cases Table.get? key s.context.yields with
    | some template => rfl
    | none =>
      rcases blockContent_refill text hs hkey with ⟨hb, hb'⟩ | ⟨b, b', hb, hb', heq⟩
      · rw [hb, hb']
        rfl
      · rw [hb, hb']
        simp only [heq]
  · split
    · exact .bind (.emit _) fun _ => ignores_ranTemplate hrun _ _
    · exact .bind (.emit _) fun _ => .bind (.lift _) fun _ => .pure _
    · exact .bind (.emit _) fun _ => ignores_ranTemplate hrun _ _
    · exact .pure _

theorem ignores_openBlock :
    Ignores (Fills slot kind) (refill slot text) (openBlock run context key) := by
  have hpush : ∀ f : Frame, Ignores (Fills slot kind) (refill slot text) (pushFrame f) :=
    fun f => .modifyState (fun _ hs => hs) fun _ => rfl
  refine .getState (fun s hs => ?_) fun s hs => ?_
  · have hcapturing : (s.mapContext (refill slot text)).isCapturing = s.isCapturing := rfl
    have hyields : (s.mapContext (refill slot text)).context.yields = s.context.yields := rfl
    have hblocks : (s.mapContext (refill slot text)).context.blocks =
      (s.context.refill slot text).blocks := rfl
    rw [hcapturing, hyields, hblocks]
    cases Table.get? key s.context.yields with
    | some template => rfl
    | none =>
      rcases blockContent_refill text hs hkey with ⟨hb, hb'⟩ | ⟨b, b', hb, hb', heq⟩
      · rw [hb, hb']
      · rw [hb, hb']
        simp only [heq]
  · split
    · exact hpush _
    · split
      · exact .bind (.emit _) fun _ => .bind (hrun _ _) fun _ => .bind (.write _) fun _ => hpush _
      · exact .bind (.emit _) fun _ => .bind (.lift _) fun _ => .bind (.write _) fun _ => hpush _
      · exact hpush _

end Key

/-- The call is not about the slot, or it is made in a context that the block refuses. -/
theorem ignores_yieldContent {args : List Value}
    (h : args.head?.bind Value.asString? = some slot → kind.accepts context = false) :
    Ignores (Fills slot kind) (refill slot text) (yieldContent run context args) := by
  unfold yieldContent
  split
  · next key _ rest =>
    refine .bind (.lift _) fun p => ignores_yieldSlot hrun (fun hkey => h ?_) p.1 p.2
    exact congrArg some hkey
  · exact .bind (.lift _) fun p => ignores_yieldMain hrun p.1

/-- **Composition calls ignore the content of a block**, unless they are about its slot in a context
that it accepts. -/
theorem ignores_compose (c : Composition) {args : List Value}
    (h : c = .yield ∨ c = .block → args.head?.bind Value.asString? = some slot →
      kind.accepts context = false) :
    Ignores (Fills slot kind) (refill slot text) (compose run context c args) := by
  cases c with
  | yield => exact ignores_yieldContent hrun (h (.inl rfl))
  | contentFor =>
    simp only [compose]
    split
    · refine .bind (.emit _) fun _ => .bind (.modifyState ?_ fun _ => rfl) fun _ => .pure _
      exact fun s ⟨b, hb, hkind⟩ => ⟨b, hb, hkind⟩
    · exact .fail _
  | block =>
    refine .bindOf (.lift _) (.lift (Q := fun key => args.head?.bind Value.asString? = some key)
      fun _ => stringArg_eq_ok) fun key hkey => ?_
    refine .bind (ignores_openBlock hrun fun hslot => ?_) fun _ => .pure _
    exact h (.inr rfl) (hslot ▸ hkey)
  | defineBlock =>
    exact .bind (.lift _) fun _ => .bind (.modifyState (fun _ hs => hs) fun _ => rfl) fun _ => .pure _
  | endBlock => exact .bind ignores_closeBlock fun _ => .pure _
  | extend =>
    exact .bind (.lift _) fun _ => .bind (.modifyState (fun _ hs => hs) fun _ => rfl) fun _ => .pure _
  | exec =>
    refine .bind (.lift _) fun template => .getState (fun _ _ => rfl) fun s _ => ?_
    exact ignores_ranTemplate hrun template _
  | rootDot => exact .getState (fun _ _ => rfl) fun s _ => .pure _
  | fallback => exact .bind (.lift _) fun template => .pure _

/-- **Calls ignore the content of a block**, unless they yield or open its slot in a context that it
accepts. -/
theorem ignores_call {name : String} {args : List Value}
    (h : name = Composition.yield.name ∨ name = Composition.block.name →
      args.head?.bind Value.asString? = some slot → kind.accepts context = false) :
    Ignores (Fills slot kind) (refill slot text) (call e run context name args) := by
  unfold call
  split
  · next c hc =>
    refine ignores_compose hrun c fun hcall => h ?_
    rw [ofName?_eq_some hc]
    exact hcall.imp (congrArg _) (congrArg _)
  · split
    · exact .attempt _
    · exact .fail _

end Calls

end Eval

/-! ## Templates that withhold a block -/

/-- No call of `yield` or `block` in the pipeline is about the slot: it has no arguments or names
another slot by a constant. -/
def Pipeline.Avoids (slot : String) (p : Pipeline) : Prop :=
  ∀ c ∈ p.calls, c.1 = Composition.yield.name ∨ c.1 = Composition.block.name →
    c.2 = .absent ∨ ∃ v, c.2 = .const v ∧ v.asString? ≠ some slot

/-- All pipelines that are evaluated in a context which the kind accepts avoid the slot. -/
def Template.Withholds (slot : String) (kind : BlockKind) (t : Template) : Prop :=
  ∀ site ∈ t.sites, kind.accepts site.1 = true → site.2.Avoids slot

namespace Eval

open Render Run

variable {e : Environment} {run : Runner} {slot text : String} {kind : BlockKind}

theorem head?_of_avoids {p : Pipeline} (hp : p.Avoids slot) {c : String × FirstArgument}
    (hc : c ∈ p.calls) (hname : c.1 = Composition.yield.name ∨ c.1 = Composition.block.name)
    {args : List Value} (hargs : c.2.Admits args) :
    args.head?.bind Value.asString? ≠ some slot := by
  obtain ⟨name, first⟩ := c
  rcases hp _ hc hname with habsent | ⟨v, hv, hslot⟩
  · rw [habsent] at hargs
    have hnil : args = [] := hargs
    rw [hnil]
    exact nofun
  · rw [hv] at hargs
    have hhead : args.head? = some v := hargs
    rw [hhead]
    exact hslot

/-- A pipeline ignores the content of a block in a context that the block refuses, and everywhere if
it avoids the slot. -/
theorem callsIgnore_of_avoids
    (hrun : ∀ name dot, Ignores (Fills slot kind) (refill slot text) (run name dot))
    {context : HtmlContext} {p : Pipeline} (hp : kind.accepts context = true → p.Avoids slot) :
    CallsIgnore (Fills slot kind) (refill slot text) e run context p.calls := by
  intro c hc args hargs
  refine ignores_call hrun fun hname hslot => ?_
  cases haccepts : kind.accepts context with
  | false => rfl
  | true => exact absurd hslot (head?_of_avoids (hp haccepts) hc hname hargs)

end Eval

namespace Render

open Run

variable {e : Environment} {slot text : String} {kind : BlockKind}
  (he : ∀ name t, e.template name = .ok t → t.Withholds slot kind)

include he

/-- Running a template ignores the content of the block, by induction on the room that is left. -/
theorem ignores_runner (room : Nat) : ∀ name dot,
    Ignores (Fills slot kind) (refill slot text) (runner e room name dot) := by
  induction room with
  | zero => exact fun _ _ => .fail _
  | succ room ih =>
    have hrun (name : String) (dot : Value) :
        Alike (Changed (Fills slot kind) (refill slot text)) (runner e room name dot)
          (runner e room name dot) := ignores_iff.1 (ih name dot)
    intro name dot
    refine ignores_iff.2 (alike_chain congruence_changed.chain ?_ (fun name dot => ?_) name dot)
    · rintro s _ ⟨-, rfl⟩
      rfl
    · refine alike_execute nested_changed congruence_changed (fun _ _ _ _ t ht => ?_) dot
      have hsites : Eval.SitesIgnore (Fills slot kind) (refill slot text) e (runner e room) t.sites :=
        fun site hsite => Eval.callsIgnore_of_avoids ih (he name t ht site hsite)
      exact Eval.alike_nodes congruence_changed hrun t t.nodes hsites.alike

theorem ignores_renderMain : Ignores (Fills slot kind) (refill slot text) (renderMain e) := by
  have hrun : ∀ name dot, Ignores (Fills slot kind) (refill slot text) (runTemplate e name dot) :=
    ignores_runner he (maxDepth + 1)
  refine .getState (fun _ _ => rfl) fun s _ => ?_
  split
  · exact .fail _
  · next main _ =>
    refine .bind (.emit _) fun _ => ?_
    split
    · exact hrun main _
    · next layout _ =>
      refine .bind (hrun main _) fun content => ?_
      exact .bind (.modifyState (fun _ hs => hs) fun _ => rfl) fun _ => hrun layout _

end Render

namespace Environment

open Render Run

/-- **Contexts that refuse a block ignore its content.** There its slot can be neither yielded nor
opened; an action there does the same for every content, as far as the templates that it runs do; and
the whole rendering is the same for every content if no pipeline in another context is about the slot. -/
theorem refused_contexts_ignore_block (e : Environment) (slot text : String) (kind : BlockKind) :
    (∀ (run : Runner) (context : HtmlContext) (s : State), kind.accepts context = false →
      s.context.Fills slot kind → Table.get? slot s.context.yields = none →
      (∀ data fallback, ∃ t, Eval.yieldSlot run context slot data fallback s =
        .error { cause := .wrongContext slot kind context } t) ∧
      (s.isCapturing = false → ∃ t, Eval.openBlock run context slot s =
        .error { cause := .wrongContext slot kind context } t)) ∧
    (∀ run : Runner,
      (∀ name dot, Ignores (Fills slot kind) (refill slot text) (run name dot)) →
      ∀ (t : Template) (line : Nat) (context : HtmlContext) (p : Pipeline),
        kind.accepts context = false →
        Ignores (Fills slot kind) (refill slot text) (Eval.node e run t (.action line context p))) ∧
    ((∀ name t, e.template name = .ok t → t.Withholds slot kind) →
      ∀ c : RenderContext, c.Fills slot kind → e.render (c.refill slot text) = e.render c) := by
  refine ⟨fun run context s href hs hyields => ⟨?_, ?_⟩, ?_, ?_⟩
  · exact Eval.yieldSlot_refused href hs hyields
  · exact Eval.openBlock_refused href hs hyields
  · intro run hrun t line context p href
    refine Eval.ignores_node hrun t _ fun site hsite => ?_
    obtain rfl : site = (context, p) := by simpa [Node.sites] using hsite
    exact Eval.callsIgnore_of_avoids hrun fun haccepts => by simp [href] at haccepts
  · intro he c hc
    have hmain : AgreesAt (Fills slot kind) (refill slot text) { context := c } (renderMain e)
      (renderMain e) := ignores_renderMain he { context := c } hc
    have hstart : ({ context := c.refill slot text } : State) =
        ({ context := c } : State).mapContext (refill slot text) := rfl
    unfold AgreesAt at hmain
    unfold render EStateM.run
    rw [hstart]
    cases hrun : renderMain e { context := c } with
    | ok out t =>
      rw [hrun] at hmain
      rw [hmain.2]
      rfl
    | error f t =>
      rw [hrun] at hmain
      rw [hmain.2]
      rfl

/-- A page that yields one slot in the body and another one in a script. -/
def withholdingPage : Template where
  name := "page"
  nodes := [
    .action 1 .body { commands := [[.call "yield", .const (.text "title")]] },
    .text "<script>",
    .action 1 .script { commands := [[.call "yield", .const (.text "code")]] },
    .text "</script>"]

/-- The page with a template for its script. -/
def withholdingPages : Environment where
  templates := [("go", { name := "go", nodes := [.text "go()"] }), ("page", withholdingPage)]

theorem withholds_withholdingPages {name : String} {t : Template}
    (h : withholdingPages.template name = .ok t) : t.Withholds "code" .html := by
  have hmem := mem_of_template h
  simp only [withholdingPages, List.mem_cons, Prod.mk.injEq, List.not_mem_nil, or_false] at hmem
  rcases hmem with ⟨-, rfl⟩ | ⟨-, rfl⟩
  · intro site hsite
    simp [Template.sites, Node.sitesOf, Node.sites] at hsite
  · intro site hsite haccepts c hc _
    simp only [withholdingPage, Template.sites, Node.sitesOf, Node.sites, List.nil_append,
      List.cons_append, List.mem_cons, List.not_mem_nil, or_false] at hsite
    rcases hsite with rfl | rfl
    · simp [Pipeline.calls, Expr.callsOfCommands, Expr.callsOfCommand, Expr.callsOfOperands,
        Expr.calls, Expr.firstArgument] at hc
      subst hc
      exact .inr ⟨_, rfl, by decide⟩
    · cases haccepts

/-- Markup for a slot that the page yields in a script. -/
def withheldContext : RenderContext where
  main := some "page"
  blocks := [("code", ⟨"<b>", .html⟩), ("title", ⟨"T", .user⟩)]

/-- The markup is refused in the script, and a template for the slot takes its place. -/
theorem refused_contexts_ignore_block_withholdingPages :
    (∃ t, Eval.yieldSlot (runTemplate withholdingPages) .script "code" none none
      { context := withheldContext } =
        .error { cause := .wrongContext "code" .html .script } t) ∧
    Ignores (Fills "code" .html) (refill "code" "<i>")
      (Eval.node withholdingPages (runTemplate withholdingPages) withholdingPage
        (.action 1 .script { commands := [[.call "yield", .const (.text "code")]] })) ∧
    (withholdingPages.render (withheldContext.mapSlot "code" "go")).1 =
      .ok "T<script>go()</script>" ∧
    withholdingPages.render ((withheldContext.mapSlot "code" "go").refill "code" "<i>") =
      withholdingPages.render (withheldContext.mapSlot "code" "go") := by
  have h := refused_contexts_ignore_block withholdingPages "code" "<i>" .html
  refine ⟨(h.1 _ .script _ rfl ⟨_, rfl, rfl⟩ rfl).1 none none, ?_, by cbv, ?_⟩
  · refine h.2.1 _ ?_ withholdingPage 1 .script _ rfl
    exact ignores_runner (fun _ _ => withholds_withholdingPages) (maxDepth + 1)
  · exact h.2.2 (fun _ _ => withholds_withholdingPages) _ ⟨_, rfl, rfl⟩

/-! ## What the gate does not see -/

/-- Pages that get a block where it is accepted and write it in a script: from a variable, as the
current data, as the output of another template and as the main content. -/
def leakingPages : Environment where
  templates := [
    ("around", { name := "around", nodes := [
      .text "<script>", .action 1 .script { commands := [[.call "yield"]] }, .text "</script>"] }),
    ("data", { name := "data", nodes := [
      .scope 1 { commands := [[.call "yield", .const (.text "s")]] }
        [.text "<script>", .action 1 .script { commands := [[.dot]] }, .text "</script>"] []] }),
    ("other", { name := "other", nodes := [
      .text "<script>",
      .action 1 .script { commands := [[.call "exec", .const (.text "plain")]] },
      .text "</script>"] }),
    ("plain", { name := "plain", nodes := [
      .action 1 .body { commands := [[.call "yield", .const (.text "s")]] }] }),
    ("variable", { name := "variable", nodes := [
      .action 1 .body { targets := ["x"], commands := [[.call "yield", .const (.text "s")]] },
      .text "<script>",
      .action 1 .script { commands := [[.variable "x" []]] },
      .text "</script>"] })]

/-- A script writes the content of a block for the body that it was not given itself. -/
theorem accepted_content_reaches_script :
    BlockKind.html.accepts .script = false ∧
    ∀ page ∈ [("variable", none), ("data", none), ("other", none), ("plain", some "around")],
      (leakingPages.render
        { main := some page.1, layout := page.2, blocks := [("s", ⟨"MARK", .html⟩)] }).1 =
          .ok "<script>MARK</script>" := by
  refine ⟨rfl, ?_⟩
  simp only [List.forall_mem_cons, List.not_mem_nil, false_implies, implies_true, and_true]
  refine ⟨?_, ?_, ?_, ?_⟩
  · cbv
  · cbv
  · cbv
  · cbv

end Environment

end Stencil
