import Mathlib
import Stencil.Proofs.Escape.Functions
import Stencil.Proofs.Render.Contents
import Stencil.Proofs.Render.Evaluation
import Stencil.Render.Basic

/-!
# Escaping keeps tags out

In an environment whose templates all escape and hold no `<` themselves, and that does not call
`safe`, no rendering of data writes a `<`: every text that the renderer passes on as safe was written
by a template.

* `Render.Clean` is the invariant: no safe text in a variable, no captured block, no main content and
  no output holds a `<`.
* `Eval.keeps_call` is its step, one case for each composition call, and `Render.keeps_runner` the run:
  an induction over the room that is left for templates.
* `Environment.not_mem_render` is the conclusion.
-/

namespace Stencil

open Text

/-- A text without a `<`. -/
abbrev Text.Tagless (s : String) : Prop := Each (· ≠ '<') s

theorem Text.Tagless.append (s t : String) (hs : Tagless s) (ht : Tagless t) : Tagless (s ++ t) :=
  each_append.2 ⟨hs, ht⟩

namespace Render

/-! ## The invariant -/

/-- No text that is or may become safe holds a `<`. -/
structure Clean (s : State) : Prop where
  root : s.root.Harmless
  blocks : ∀ p ∈ s.context.blocks, Tagless p.2.content
  mainContent : ∀ text, s.mainContent = some text → Tagless text
  scopes : Scopes.All Value.Harmless s.scopes
  output : Output.All Tagless s.output

/-- The parts of the state that the invariant does not look at. -/
theorem Clean.of_eq {s t : State} (h : Clean s) (hdot : t.context.dot = s.context.dot)
    (hblocks : t.context.blocks = s.context.blocks) (hmain : t.mainContent = s.mainContent)
    (hscopes : t.scopes = s.scopes) (houtput : t.output = s.output) : Clean t where
  root := by
    change t.context.dot.Harmless
    exact hdot ▸ h.root
  blocks := hblocks ▸ h.blocks
  mainContent := hmain ▸ h.mainContent
  scopes := hscopes ▸ h.scopes
  output := houtput ▸ h.output

theorem Clean.block {s : State} (h : Clean s) {slot : String} {b : Block}
    (hb : Table.get? slot s.context.blocks = some b) : Tagless b.content :=
  h.blocks _ (Table.mem_of_get? hb)

/-- The nodes of a template keep the invariant with harmless values and texts without a `<`. -/
theorem clean_invariant : Eval.Invariant Clean Value.Harmless Tagless where
  undefined := Value.harmless_of_eq_nil rfl
  dot _ h := h.scopes.dot (Value.harmless_of_eq_nil rfl)
  lookup _ _ _ h hl := h.scopes.lookup? hl
  field _ _ _ hv hw := hv.of_subset (Value.safeTexts_field hw)
  pairs v ps hv hps p hp := by
    obtain ⟨hkey, hitem⟩ := Value.safeTexts_pairs hps p hp
    exact ⟨Value.harmless_of_eq_nil hkey, hv.of_subset hitem⟩
  write _ _ h ht := { h with output := h.output.write Tagless.append ht }
  declare _ _ _ h hv := { h with scopes := h.scopes.declare hv }
  assign _ _ _ _ h hv he := { h with scopes := h.scopes.assign? hv he }
  push _ _ h hv := { h with scopes := h.scopes.push hv }
  pop _ h := { h with scopes := h.scopes.tail }

end Render

namespace Eval

open Render Run

open Value (harmless_safeText harmless_of_eq_nil)

variable {run : Runner} (hrun : ∀ name dot, dot.Harmless → Keeps Clean (run name dot) Tagless)

/-! ## Composition calls -/

theorem keeps_emit (ev : Event) : Keeps Clean (Run.emit ev) fun _ => True :=
  .modifyState fun _ h => h.of_eq rfl rfl rfl rfl rfl

theorem harmless_nothing : nothing.Harmless := harmless_safeText each_empty

theorem keeps_pushFrame {f : Frame} (hf : ∀ slot kind text, f = .capture slot kind text → text = "") :
    Keeps Clean (pushFrame f) fun _ => True :=
  .modifyState fun _ h => { h with
    output := h.output.push fun slot kind text he => hf slot kind text he ▸ each_empty }

theorem keeps_capture (slot : String) (context : HtmlContext) :
    Keeps Clean (capture slot context) fun _ => True :=
  keeps_pushFrame fun _ _ _ he => by
    cases he
    rfl

theorem keeps_write {text : String} (ht : Tagless text) : Keeps Clean (Run.write text) fun _ => True :=
  clean_invariant.keeps_write ht

theorem harmless_yieldArgs {vs : List Value} :
    ∀ {data d : Option Value} {fallback f : Option String}, (∀ v ∈ data, v.Harmless) →
      (∀ v ∈ vs, v.Harmless) → yieldArgs data fallback vs = .ok (d, f) → ∀ v ∈ d, v.Harmless := by
  induction vs with
  | nil =>
    intro data d fallback f hdata _ h
    cases h
    exact hdata
  | cons w ws ih =>
    intro data d fallback f hdata hvs h
    rw [List.forall_mem_cons] at hvs
    simp only [yieldArgs] at h
    split at h
    · exact ih hdata hvs.2 h
    · exact ih (by simpa using hvs.1) hvs.2 h
    · cases h

/-- Data that is the root of the rendering unless it is given. -/
theorem harmless_getD {data : Option Value} (hdata : ∀ v ∈ data, v.Harmless) {root : Value}
    (hroot : root.Harmless) : (data.getD root).Harmless := by
  cases data with
  | none => exact hroot
  | some v => exact hdata v rfl

/-- The content of a block that a context accepts is the content of the block. -/
theorem blockContent_eq_ok {slot : String} {b : Block} {context : HtmlContext} {text : String} :
    blockContent slot b context = .ok text ↔ b.kind.accepts context = true ∧ b.content = text := by
  unfold blockContent
  split
  · next h => exact ⟨fun he => ⟨h, Except.ok.inj he⟩, fun he => congrArg _ he.2⟩
  · next h => exact ⟨fun he => (nomatch he), fun he => absurd he.1 h⟩

theorem keeps_blockContent {s : State} (hs : Clean s) {slot : String} {b : Block}
    (hb : Table.get? slot s.context.blocks = some b) (context : HtmlContext) :
    Keeps Clean (Run.lift (blockContent slot b context)) Tagless :=
  .lift fun _ ht => (blockContent_eq_ok.1 ht).2 ▸ hs.block hb

include hrun

theorem keeps_ranTemplate (name : String) {dot : Value} (hdot : dot.Harmless) :
    Keeps Clean (ranTemplate run name dot) Value.Harmless :=
  (hrun name dot hdot).bind fun _ htext => .pure (harmless_safeText htext)

theorem keeps_yieldMain {data : Option Value} (hdata : ∀ v ∈ data, v.Harmless) :
    Keeps Clean (yieldMain run data) Value.Harmless := by
  refine .getState fun s hs => ?_
  split
  · next content hc => exact .pure (harmless_safeText (hs.mainContent content hc))
  · split
    · exact .fail _
    · exact keeps_ranTemplate hrun _ (harmless_getD hdata hs.root)

theorem keeps_yieldSlot (context : HtmlContext) (slot : String) {data : Option Value}
    (hdata : ∀ v ∈ data, v.Harmless) (fallback : Option String) :
    Keeps Clean (yieldSlot run context slot data fallback) Value.Harmless := by
  refine .getState fun s hs => ?_
  have hdot : (data.getD s.root).Harmless := harmless_getD hdata hs.root
  split
  · exact .seq (keeps_emit _) fun _ => keeps_ranTemplate hrun _ hdot
  · next b _ hb =>
    refine .seq (keeps_emit _) fun _ => ?_
    exact (keeps_blockContent hs hb context).bind fun _ ht => .pure (harmless_safeText ht)
  · exact .seq (keeps_emit _) fun _ => keeps_ranTemplate hrun _ hdot
  · exact .pure harmless_nothing

theorem keeps_yieldContent (context : HtmlContext) {args : List Value}
    (hargs : ∀ v ∈ args, v.Harmless) :
    Keeps Clean (yieldContent run context args) Value.Harmless := by
  unfold yieldContent
  split
  · next slot _ rest =>
    refine .bind (Q := fun p => ∀ v ∈ p.1, v.Harmless) (.lift fun p hp => ?_) fun p hp =>
      keeps_yieldSlot hrun context slot hp p.2
    exact harmless_yieldArgs (by simp) (fun v hv => hargs v (by simp [hv])) hp
  · refine .bind (Q := fun p => ∀ v ∈ p.1, v.Harmless) (.lift fun p hp => ?_) fun p hp =>
      keeps_yieldMain hrun hp
    exact harmless_yieldArgs (by simp) hargs hp

theorem keeps_openBlock (context : HtmlContext) (slot : String) :
    Keeps Clean (openBlock run context slot) fun _ => True := by
  refine .getState fun s hs => ?_
  split
  · exact keeps_capture slot context
  · split
    · refine .seq (keeps_emit _) fun _ => (hrun _ _ hs.root).bind fun _ htext => ?_
      exact .seq (keeps_write htext) fun _ => keeps_pushFrame fun _ _ _ he => nomatch he
    · next b _ hb =>
      refine .seq (keeps_emit _) fun _ => (keeps_blockContent hs hb context).bind fun _ ht => ?_
      exact .seq (keeps_write ht) fun _ => keeps_pushFrame fun _ _ _ he => nomatch he
    · exact keeps_pushFrame fun _ _ _ he => nomatch he

omit hrun

theorem keeps_closeBlock : Keeps Clean closeBlock fun _ => True := by
  refine .getState fun s hs => ?_
  have hout := hs.output.pop
  have hpopped : ∀ slot kind text, s.output.pop.1 = some (.capture slot kind text) → Tagless text :=
    fun _ _ _ => hs.output.popped
  rcases hp : s.output.pop with ⟨frame, output⟩
  rw [hp] at hout hpopped
  have hclean : Clean { s with output } := { hs with output := hout }
  match frame with
  | none => exact .fail _
  | some .discard => exact .setState hclean
  | some .through => exact .setState hclean
  | some (.capture slot kind content) =>
    have hcontent : Tagless content := hpopped slot kind content rfl
    dsimp only
    split
    · exact .seq (.setState hclean) fun _ => keeps_emit _
    · refine .seq (.setState { hclean with blocks := fun p hp => ?_ }) fun _ => keeps_emit _
      rcases Table.mem_insert hp with rfl | hp
      · exact hcontent
      · exact hs.blocks p hp

include hrun

/-- **Composition calls keep the invariant**, and their values are harmless. -/
theorem keeps_compose (context : HtmlContext) (c : Composition) {args : List Value}
    (hargs : ∀ v ∈ args, v.Harmless) : Keeps Clean (compose run context c args) Value.Harmless := by
  have hstring : ∀ expected, Keeps Clean (Run.lift (stringArg c expected args)) fun _ => True :=
    fun _ => .lift fun _ _ => trivial
  cases c with
  | yield => exact keeps_yieldContent hrun context hargs
  | contentFor =>
    simp only [compose]
    split
    · refine .seq (keeps_emit _) fun _ => .seq ?_ fun _ => .pure harmless_nothing
      exact .modifyState fun _ h => h.of_eq rfl rfl rfl rfl rfl
    · exact .fail _
  | block =>
    exact .seq (hstring _) fun slot => .seq (keeps_openBlock hrun context slot) fun _ =>
      .pure harmless_nothing
  | defineBlock =>
    exact .seq (hstring _) fun slot => .seq (keeps_capture slot context) fun _ =>
      .pure harmless_nothing
  | endBlock => exact .seq keeps_closeBlock fun _ => .pure harmless_nothing
  | extend =>
    refine .seq (hstring _) fun template => .seq ?_ fun _ => .pure harmless_nothing
    exact .modifyState fun _ h => { h with output := h.output }
  | exec =>
    refine .seq (hstring _) fun template => .getState fun s hs => ?_
    refine keeps_ranTemplate hrun template (harmless_getD (fun v hv => ?_) hs.root)
    exact hargs v (List.mem_of_getElem? hv)
  | rootDot => exact .getState fun s hs => .pure hs.root
  | fallback => exact .seq (hstring _) fun template => .pure (harmless_of_eq_nil rfl)

/-- **Calls keep the invariant** in an environment with standard functions, unless `safe` is called. -/
theorem keeps_call {e : Environment} (he : ∀ p ∈ e.functions, p ∈ Function.standard)
    (context : HtmlContext) {name : String} (hname : name ≠ "safe") {args : List Value}
    (hargs : ∀ v ∈ args, v.Harmless) : Keeps Clean (call e run context name args) Value.Harmless := by
  unfold call
  split
  · next c _ => exact keeps_compose hrun context c hargs
  · split
    · next f hf =>
      have hmem := he _ (Table.mem_of_get? hf)
      exact .attempt fun w hw => Function.standard_harmless hname hmem args w hargs hw
    · exact .fail _

end Eval

/-- The template escapes: it is marked so, its texts hold no `<`, no constant in it is safe text and
it does not call `safe`. -/
structure Template.Escapes (t : Template) : Prop where
  escape : t.escape = .html
  texts : ∀ s ∈ t.texts, '<' ∉ s.toList
  constants : ∀ site ∈ t.sites, ∀ v, .const v ∈ site.2.leaves → v.safeTexts = []
  calls : ∀ site ∈ t.sites, .call "safe" ∉ site.2.leaves

/-- The environment escapes: its functions are standard ones and all of its templates escape. -/
structure Environment.Escapes (e : Environment) : Prop where
  functions : ∀ p ∈ e.functions, p ∈ Function.standard
  templates : ∀ name t, e.template name = .ok t → t.Escapes

namespace Render

open Run

variable {e : Environment} (he : e.Escapes)

/-! ## Templates that run one another -/

theorem keeps_finished : Keeps Clean finished Tagless := by
  refine .getState fun s hs => ?_
  dsimp only
  split
  · exact .pure hs.output.1
  · exact .fail _

include he

theorem keeps_templateNodes {run : Runner}
    (hrun : ∀ name dot, dot.Harmless → Keeps Clean (run name dot) Tagless) {t : Template}
    (ht : t.Escapes) : Keeps Clean (Eval.nodes e run t t.nodes) fun _ => True := by
  refine Eval.keeps_nodes clean_invariant ⟨fun v context hv => ?_, hrun⟩ t.nodes
    (fun s hs c hc hlt => ht.texts s hs (hlt ▸ hc)) fun site hsite l hl => ?_
  · rw [ht.escape]
    exact hv.written context
  · cases l with
    | call f =>
      intro args hargs
      exact Eval.keeps_call hrun he.functions site.1 (fun hf => ht.calls site hsite (hf ▸ hl)) hargs
    | const v => exact Value.harmless_of_eq_nil (ht.constants site hsite v hl)
    | _ => trivial

theorem keeps_execute {run : Runner}
    (hrun : ∀ name dot, dot.Harmless → Keeps Clean (run name dot) Tagless) (name : String)
    {dot : Value} (hdot : dot.Harmless) : Keeps Clean (execute e run name dot) Tagless := by
  refine .bind (Q := Template.Escapes) (.lift fun t ht => he.templates name t ht) fun t ht => ?_
  refine .getState fun s _ => ?_
  split
  · exact .fail _
  · refine Keeps.located _ _ <| .guarded (fun s hs => ?_) (fun s t hs ht => ?_) ?_
    · exact { hs with scopes := Scopes.all_start hdot, output := Output.all_empty each_empty }
    · exact { ht with scopes := hs.scopes, output := hs.output }
    · exact .seq (keeps_templateNodes he hrun ht) fun _ => keeps_finished

omit he

theorem keeps_takeParent : Keeps Clean takeParent fun _ => True :=
  .getState fun _ hs => .seq (.setState (hs.of_eq rfl rfl rfl rfl rfl)) fun _ => .pure trivial

theorem keeps_followParents {exec : Runner}
    (hexec : ∀ name dot, dot.Harmless → Keeps Clean (exec name dot) Tagless) (name : String)
    (n : Nat) : ∀ output, Tagless output → Keeps Clean (followParents exec name n output) Tagless := by
  induction n with
  | zero =>
    refine fun output houtput => .seq keeps_takeParent fun parent => ?_
    cases parent with
    | none => exact .pure houtput
    | some _ => exact .fail _
  | succ n ih =>
    refine fun output houtput => .seq keeps_takeParent fun parent => ?_
    cases parent with
    | none => exact .pure houtput
    | some parent =>
      refine .seq (Eval.keeps_emit _) fun _ => .getState fun s hs => ?_
      exact (hexec parent _ hs.root).bind ih

theorem keeps_runChain {exec : Runner}
    (hexec : ∀ name dot, dot.Harmless → Keeps Clean (exec name dot) Tagless) (name : String)
    {dot : Value} (hdot : dot.Harmless) : Keeps Clean (runChain exec name dot) Tagless :=
  .guarded (fun _ hs => hs.of_eq rfl rfl rfl rfl rfl) (fun _ _ _ ht => ht.of_eq rfl rfl rfl rfl rfl) <|
    (hexec name dot hdot).bind (keeps_followParents hexec name maxParents)

include he

/-- **Running a template keeps the invariant**, by induction on the room that is left for templates
that run inside it. -/
theorem keeps_runner (room : Nat) :
    ∀ name dot, dot.Harmless → Keeps Clean (runner e room name dot) Tagless := by
  induction room with
  | zero => exact fun _ _ _ => .fail _
  | succ room ih =>
    exact fun name _ hdot => keeps_runChain (fun n _ hd => keeps_execute he ih n hd) name hdot

theorem keeps_renderMain : Keeps Clean (renderMain e) Tagless := by
  have hrun := keeps_runner he (maxDepth + 1)
  refine .getState fun s hs => ?_
  split
  · exact .fail _
  · next main _ =>
    refine .seq (Eval.keeps_emit _) fun _ => ?_
    split
    · exact hrun main _ hs.root
    · next layout _ =>
      refine (hrun main _ hs.root).bind fun content hcontent => ?_
      refine .seq (.modifyState fun t ht => ?_) fun _ => hrun layout _ hs.root
      exact { ht with mainContent := fun text h => Option.some.inj h ▸ hcontent }

end Render

namespace Environment

open Render

/-- **An escaping environment writes no tag of its own**: whatever the main template, the layout, the
templates of slots and the data are, the output holds no `<`. -/
theorem not_mem_render {e : Environment} (he : e.Escapes) (main layout : Option String)
    (yields : Table String) (data : Option Json) {text : String}
    (h : (e.render { main, layout, yields, dot := (data.map Value.ofJson).getD .undefined }).1 =
      .ok text) : '<' ∉ text.toList := by
  have hdot : ((data.map Value.ofJson).getD .undefined).Harmless := by
    cases data with
    | none => exact Value.harmless_of_eq_nil rfl
    | some j => exact Value.harmless_of_eq_nil (Value.safeTexts_ofJson j)
  have hclean : Clean { context :=
      { main, layout, yields, dot := (data.map Value.ofJson).getD .undefined } } :=
    { root := hdot
      blocks := fun _ hp => nomatch hp
      mainContent := fun _ hc => nomatch hc
      scopes := fun _ hs => nomatch hs
      output := Output.all_empty each_empty }
  unfold render at h
  split at h
  · next out s hrun =>
    cases h
    have hout := (keeps_renderMain he).ok hclean hrun
    exact fun hc => hout.2 '<' hc rfl
  · cases h

/-- A page that captures a block under a layout, which writes the block and the page. -/
def escapingPages : Environment where
  functions := Function.standard
  templates := [
    ("base", { name := "base", escape := .html, nodes := [
      .action 1 .body { commands := [[.call "yield", .const (.text "title")]] },
      .text ": ",
      .action 1 .script { commands := [[.call "yield"]] }] }),
    ("page", { name := "page", escape := .html, nodes := [
      .action 1 .body { commands := [[.call "block", .const (.text "title")]] },
      .action 1 .body { commands := [[.field ["name"]]] },
      .action 1 .body { commands := [[.call "end_block"]] },
      .scope 2 { targets := ["x"], commands := [[.call "html", .field ["name"]]] }
        [.action 2 .style { commands := [[.dot]] }, .text ",",
          .action 2 .script { commands := [[.variable "" ["name"]]] }] []] })]

theorem escapes_escapingPages : escapingPages.Escapes where
  functions _ hp := hp
  templates name t ht := by
    have hmem := mem_of_template ht
    simp only [escapingPages, List.mem_cons, Prod.mk.injEq, List.not_mem_nil, or_false] at hmem
    rcases hmem with ⟨-, rfl⟩ | ⟨-, rfl⟩ <;> constructor <;>
      simp [Template.texts, Node.textsOf, Node.texts, Template.sites, Node.sitesOf, Node.sites,
        Pipeline.leaves, Expr.leavesOfCommands, Expr.leavesOfOperands, Expr.leaves, Value.text,
        Value.safeTexts]

/-- A rendering context for these pages whose data holds a tag. -/
def taggedContext : RenderContext where
  main := some "page"
  layout := some "base"
  dot := .ofJson (.object [("name", .string "<b>")])

/-- The tag travels through a captured block, the function `html`, a branch and the main content. -/
theorem not_mem_render_escapingPages :
    (escapingPages.render taggedContext).1 = .ok "&lt;b&gt;: &lt;b&gt;,\"\\u003cb\\u003e\"" ∧
      '<' ∉ "&lt;b&gt;: &lt;b&gt;,\"\\u003cb\\u003e\"".toList := by
  have h : (escapingPages.render taggedContext).1 =
      .ok "&lt;b&gt;: &lt;b&gt;,\"\\u003cb\\u003e\"" := by cbv
  exact ⟨h, not_mem_render escapes_escapingPages (some "page") (some "base") []
    (some (.object [("name", .string "<b>")])) h⟩

end Environment

end Stencil
