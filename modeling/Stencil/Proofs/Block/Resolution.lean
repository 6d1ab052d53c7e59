import Stencil.Proofs.Block.Inheritance
import Stencil.Proofs.Render.Causes
import Stencil.Proofs.Render.Layout
import Stencil.Proofs.Render.Plain

/-!
# The resolution of a slot

A block that is not captured and a `yield` of the same slot look for the same content: the template of
the slot, or else its block, which the context has to accept. The block has a default body besides, which
must not show where there is other content.

* `State.LogOnly` relates states that differ in the log, and `Render.alike_log` says that no template
  notices the log.
* `Eval.compose_claimed` compares the calls of `block` and of `yield` for a slot that is claimed.
* `Eval.block_resolves` compares a block with a `yield`, for every slot.
-/

namespace Stencil

open Render

/-! ## The log -/

namespace Render

open Run

/-- The states differ in the log only. -/
def State.LogOnly (s s' : State) : Prop := ∃ events, s' = { s with events }

/-- The states have in common what all templates of a rendering share. -/
def State.Shares (s s' : State) : Prop := ∃ scopes output events, s' = { s with scopes, output, events }

theorem congruence_log : CallCongruence State.LogOnly where
  scopes := by rintro _ _ ⟨_, rfl⟩; rfl
  output := by rintro _ _ ⟨_, rfl⟩; rfl
  parent := by rintro _ _ ⟨_, rfl⟩; rfl
  setScopes := by rintro _ _ ⟨events, rfl⟩ _; exact ⟨events, rfl⟩
  setOutput := by rintro _ _ ⟨events, rfl⟩ _; exact ⟨events, rfl⟩
  setParent := by rintro _ _ ⟨events, rfl⟩ _; exact ⟨events, rfl⟩
  emit := by rintro _ _ ⟨events, rfl⟩ ev; exact ⟨ev :: events, rfl⟩
  main := by rintro _ _ ⟨_, rfl⟩; rfl
  mainContent := by rintro _ _ ⟨_, rfl⟩; rfl
  root := by rintro _ _ ⟨_, rfl⟩; rfl
  yields := by rintro _ _ ⟨_, rfl⟩; rfl
  blocks := by rintro _ _ ⟨_, rfl⟩; rfl
  setYields := by rintro _ _ ⟨events, rfl⟩ _; exact ⟨events, rfl⟩
  setBlocks := by rintro _ _ ⟨events, rfl⟩ _; exact ⟨events, rfl⟩

theorem nested_log : Nested State.LogOnly State.LogOnly where
  depth := by rintro _ _ ⟨_, rfl⟩; rfl
  enter := by rintro _ _ ⟨events, rfl⟩ _; exact ⟨events, rfl⟩
  leave := by rintro _ _ _ _ ⟨_, rfl⟩ ⟨events, rfl⟩; exact ⟨events, rfl⟩

/-- **No template notices the log**, by induction on the room. -/
theorem alike_log (e : Environment) (room : Nat) : ∀ name dot,
    Alike State.LogOnly (runner e room name dot) (runner e room name dot) := by
  have hcongruence : CallCongruence State.LogOnly := congruence_log
  induction room with
  | zero => exact fun _ _ => .fail _
  | succ room ih =>
    refine alike_chain hcongruence.chain (fun _ _ => hcongruence.root) fun name dot => ?_
    refine alike_execute nested_log hcongruence.toCongruence (fun _ _ _ _ t _ => ?_) dot
    refine Eval.alike_nodes hcongruence.toCongruence ih t t.nodes fun site _ call _ args _ => ?_
    refine Eval.alike_call ih hcongruence e call.1 (fun _ => ?_) args
    rintro s _ ⟨_, rfl⟩
    rfl

end Render

namespace Eval

open Run

variable {e : Environment} {room : Nat} {run : Runner} {t : Template} {context : HtmlContext}
  {slot : String} {s : State}

/-! ## The calls -/

theorem compose_block_ok {u : State} (h : openBlock run context slot s = .ok ⟨⟩ u) :
    compose run context .block [.text slot] s = .ok nothing u := by
  change (openBlock run context slot >>= fun _ => pure nothing) s = _
  rw [bind_ok h]
  rfl

theorem compose_block_error {u : State} {f : Fault}
    (h : openBlock run context slot s = .error f u) :
    compose run context .block [.text slot] s = .error f u := by
  change (openBlock run context slot >>= fun _ => pure nothing) s = _
  rw [bind_error h]

/-- The two calls have looked for the slot; the states are `v` behind `yield` and `w` behind `block`,
before it writes. -/
structure Looked (s v w : State) : Prop where
  scopes : v.scopes = s.scopes
  output : v.output = s.output
  log : State.LogOnly v w

/-- The call of `yield` gives a text, and that of `block` writes it and drops the body; or both fail with
the same fault. -/
def FindAlike (run : Runner) (context : HtmlContext) (slot : String) (s : State) : Prop :=
  (∃ text v w, Looked s v w ∧
    compose run context .yield [.text slot] s = .ok (.safeText text) v ∧
    compose run context .block [.text slot] s =
      .ok nothing { w with output := (w.output.write text).push .discard }) ∨
  ∃ f v w, Looked s v w ∧ compose run context .yield [.text slot] s = .error f v ∧
    compose run context .block [.text slot] s = .error f w

section Claimed

variable (e room run context) (hcapturing : s.isCapturing = false)

include hcapturing

/-- A template is run for the slot by both calls. -/
theorem compose_template {template : String}
    (hslot : Table.get? slot s.context.yields = some template) :
    FindAlike (runner e room) context slot s := by
  let sy : State := { s with events := .yieldTemplate slot template :: s.events }
  let sb : State := { s with events := .blockTemplate slot template :: s.events }
  have hyield : compose (runner e room) context .yield [.text slot] s =
      (runner e room template s.root >>= fun text => pure (.safeText text)) sy := by
    change yieldSlot (runner e room) context slot none none s = _
    rw [yieldSlot, get_bind]
    simp only [hslot]
    rfl
  have hblock : openBlock (runner e room) context slot s =
      (runner e room template s.root >>= fun text => do
        Run.write text
        pushFrame .discard) sb := by
    rw [openBlock, get_bind, if_neg (by simp [hcapturing])]
    simp only [hslot]
    rfl
  have haside := runner_aside e room template s.root sy
  rcases (alike_log e room template s.root sy sb ⟨_, rfl⟩).cases with
    ⟨text, v, w, hv, hw, hlog⟩ | ⟨f, v, w, hv, hw, hlog⟩
  · rw [final_of_ok hv] at haside
    refine .inl ⟨text, v, w, ⟨haside.1, haside.2, hlog⟩, ?_, compose_block_ok ?_⟩
    · rw [hyield, bind_ok hv]
      rfl
    · rw [hblock, bind_ok hw]
      rfl
  · rw [final_of_error hv] at haside
    refine .inr ⟨f, v, w, ⟨haside.1, haside.2, hlog⟩, ?_, compose_block_error ?_⟩
    · rw [hyield, bind_error hv]
    · rw [hblock, bind_error hw]

/-- A block for the slot is shown by both calls, if the context accepts it. -/
theorem compose_content {b : Block} (hslot : Table.get? slot s.context.yields = none)
    (hb : Table.get? slot s.context.blocks = some b) :
    ∃ v w, Looked s v w ∧
      if b.kind.accepts context then
        compose run context .yield [.text slot] s = .ok (.safeText b.content) v ∧
        compose run context .block [.text slot] s =
          .ok nothing { w with output := (w.output.write b.content).push .discard }
      else
        compose run context .yield [.text slot] s =
          .error { cause := .wrongContext slot b.kind context } v ∧
        compose run context .block [.text slot] s =
          .error { cause := .wrongContext slot b.kind context } w := by
  refine ⟨{ s with events := .yieldBlock slot :: s.events },
    { s with events := .blockContent slot :: s.events }, ⟨rfl, rfl, _, rfl⟩, ?_⟩
  have hyield : compose run context .yield [.text slot] s =
      (Run.lift (blockContent slot b context) >>= fun text => pure (.safeText text))
        { s with events := .yieldBlock slot :: s.events } := by
    change yieldSlot run context slot none none s = _
    rw [yieldSlot, get_bind]
    simp only [hslot, hb]
    rfl
  have hblock : openBlock run context slot s =
      (Run.lift (blockContent slot b context) >>= fun text => do
        Run.write text
        pushFrame .discard) { s with events := .blockContent slot :: s.events } := by
    rw [openBlock, get_bind, if_neg (by simp [hcapturing])]
    simp only [hslot, hb]
    rfl
  unfold blockContent at hyield hblock
  split
  · next haccepts =>
    rw [if_pos haccepts] at hyield hblock
    exact ⟨hyield, compose_block_ok hblock⟩
  · next haccepts =>
    rw [if_neg haccepts] at hyield hblock
    exact ⟨hyield, compose_block_error hblock⟩

/-- **Both calls find the same content for a slot that is claimed**, or fail with the same fault. -/
theorem compose_claimed (hclaimed : s.context.isClaimed slot = true) :
    FindAlike (runner e room) context slot s := by
  cases hslot : Table.get? slot s.context.yields with
  | some template => exact compose_template e room context hcapturing hslot
  | none =>
    have hblocks : (Table.get? slot s.context.blocks).isSome = true := by
      simpa [RenderContext.isClaimed, Table.contains, hslot] using hclaimed
    obtain ⟨b, hb⟩ := Option.isSome_iff_exists.1 hblocks
    obtain ⟨v, w, hlooked, h⟩ := compose_content (runner e room) context hcapturing hslot hb
    split at h
    · exact .inl ⟨b.content, v, w, hlooked, h⟩
    · exact .inr ⟨_, v, w, hlooked, h⟩

/-- For a slot that is not claimed there is nothing, and the body of the block is let through. -/
theorem compose_free (hfree : s.context.isClaimed slot = false) :
    compose run context .yield [.text slot] s = .ok (.safeText "") s ∧
      compose run context .block [.text slot] s =
        .ok nothing { s with output := s.output.push .through } := by
  have hslots : Table.get? slot s.context.yields = none ∧ Table.get? slot s.context.blocks = none := by
    simpa [RenderContext.isClaimed, Table.contains] using hfree
  constructor
  · change yieldSlot run context slot none none s = _
    rw [yieldSlot, get_bind]
    simp only [hslots]
    rfl
  · refine compose_block_ok ?_
    rw [openBlock, get_bind, if_neg (by simp [hcapturing])]
    simp only [hslots]
    rfl

end Claimed

/-! ## A block and a yield -/

/-- A node that yields a slot. -/
def yieldOf (line : Nat) (context : HtmlContext) (slot : String) : Node :=
  .action line context { commands := [[.call "yield", .const (.text slot)]] }

/-- The nodes of a block with a body. -/
def blockOf (opened closed : Nat) (context closing : HtmlContext) (slot : String)
    (body : List Node) : List Node :=
  .action opened context { commands := [[.call "block", .const (.text slot)]] } ::
    (body ++ [.action closed closing { commands := [[.call "end_block"]] }])

variable {body : List Node} {closing : HtmlContext}

/-- The body stands between the two calls, and the frame of the block is closed behind it. -/
theorem nodes_blockOf {s₁ s₂ : State} {o : Output} {f : Frame} (hf : f = .discard ∨ f = .through)
    (hopen : compose run context .block [.text slot] s = .ok nothing s₁)
    (hbody : nodes e run t body s₁ = .ok ⟨⟩ s₂) (ho : s₂.output = o.push f) (opened closed : Nat) :
    nodes e run t (blockOf opened closed context closing slot body) s =
      .ok ⟨⟩ { s₂ with output := o } := by
  have hopen : node e run t (.action opened context
      { commands := [[.call "block", .const (.text slot)]] }) s = .ok ⟨⟩ s₁ := node_silent hopen
  have hclose : compose run closing .endBlock [] s₂ = .ok nothing { s₂ with output := o } :=
    closeBlock_other run hf ho
  have hclose : node e run t (.action closed closing { commands := [[.call "end_block"]] }) s₂ =
      .ok ⟨⟩ { s₂ with output := o } := node_silent hclose
  rw [blockOf, nodes, bind_ok hopen, nodes_append, bind_ok hbody, nodes, bind_ok hclose, nodes]
  rfl

theorem nodes_blockOf_error {f : Fault} {w : State}
    (hopen : compose run context .block [.text slot] s = .error f w) (opened closed : Nat) :
    nodes e run t (blockOf opened closed context closing slot body) s =
      .error (f.atPlace t.name opened) w := by
  have hopen : node e run t (.action opened context
      { commands := [[.call "block", .const (.text slot)]] }) s = .error (f.atPlace t.name opened) w :=
    node_compose_error hopen
  rw [blockOf, nodes, bind_error hopen]

theorem node_yieldOf {text : String} {v : State}
    (h : compose run context .yield [.text slot] s = .ok (.safeText text) v) (line : Nat) :
    node e run t (yieldOf line context slot) s =
      .ok ⟨⟩ { v with output := v.output.write text } := by
  have hnode := (node_compose h : node e run t (yieldOf line context slot) s = _)
  rw [written_safeText] at hnode
  exact hnode

theorem node_yieldOf_error {f : Fault} {v : State}
    (h : compose run context .yield [.text slot] s = .error f v) (line : Nat) :
    node e run t (yieldOf line context slot) s = .error (f.atPlace t.name line) v :=
  node_compose_error h

/-- **A block resolves its slot as a yield does.** The block is not captured and its body is plain and
succeeds. If there is a template or a block for the slot, both write the same text and leave the
rendering in the same state, or both fail with the same cause; the default body leaves no text. If
there is none, the block does what its body does and the yield does nothing. -/
theorem block_resolves (e : Environment) (room : Nat) (t : Template) (context closing : HtmlContext)
    (slot : String) {body : List Node} (hbody : Node.ArePlain body) {s u : State}
    (hcapturing : s.isCapturing = false)
    (hrun : nodes e (runner e room) t body s = .ok ⟨⟩ u) (opened closed line : Nat) :
    let block := nodes e (runner e room) t (blockOf opened closed context closing slot body) s
    let yielded := node e (runner e room) t (yieldOf line context slot) s
    (s.context.isClaimed slot = true →
      (∃ text v w, yielded = .ok ⟨⟩ v ∧ block = .ok ⟨⟩ w ∧ v.output = s.output.write text ∧
        w.output = s.output.write text ∧ v.Shares w ∧ v.scopes = s.scopes ∧ w.scopes = u.scopes) ∨
      ∃ f g v w, yielded = .error f v ∧ block = .error g w ∧ f.cause = g.cause ∧ v.Shares w) ∧
    (s.context.isClaimed slot = false → block = .ok ⟨⟩ u ∧ yielded = .ok ⟨⟩ s) ∧
    (∀ b, Table.get? slot s.context.yields = none → Table.get? slot s.context.blocks = some b →
      b.kind.accepts context = false →
      (∃ f v, yielded = .error f v ∧ f.cause = .wrongContext slot b.kind context) ∧
      ∃ g w, block = .error g w ∧ g.cause = .wrongContext slot b.kind context) := by
  intro block yielded
  obtain ⟨text, scopes, hsaid⟩ := says_nodes t body hbody s ⟨⟩ u hrun
  have hu : u = { s with scopes, output := s.output.write text } := by
    cases hrun.symm.trans (hsaid s rfl)
    rfl
  refine ⟨fun hclaimed => ?_, fun hfree => ⟨?_, ?_⟩, fun b hslot hb hrefused => ?_⟩
  · rcases compose_claimed e room context hcapturing hclaimed with
      ⟨content, v, w, hlooked, hyield, hblock⟩ | ⟨f, v, w, hlooked, hyield, hblock⟩
    · left
      obtain ⟨events, rfl⟩ := hlooked.log
      have hdefault := hsaid { v with output := (v.output.write content).push .discard, events }
        hlooked.scopes
      refine ⟨content, _, _, node_yieldOf hyield line,
        nodes_blockOf (o := v.output.write content) (.inl rfl) hblock hdefault ?_ opened closed,
        congrArg (Output.write · content) hlooked.output,
        congrArg (Output.write · content) hlooked.output, ⟨_, _, _, rfl⟩, hlooked.scopes, ?_⟩
      · exact Output.write_discard text
      · rw [hu]
    · right
      obtain ⟨events, rfl⟩ := hlooked.log
      refine ⟨_, _, _, _, node_yieldOf_error hyield line, nodes_blockOf_error hblock opened closed, ?_,
        ⟨_, _, events, rfl⟩⟩
      rw [cause_atPlace, cause_atPlace]
  · rw [hu]
    exact nodes_blockOf (.inr rfl) (compose_free (runner e room) context hcapturing hfree).2
      (hsaid _ rfl) (Output.write_through text) opened closed
  · have hyield := node_yieldOf (e := e) (t := t)
      (compose_free (runner e room) context hcapturing hfree).1 line
    rw [Output.write_empty] at hyield
    exact hyield
  · obtain ⟨v, w, -, h⟩ := compose_content (runner e room) context hcapturing hslot hb
    rw [if_neg (by simp [hrefused])] at h
    refine ⟨⟨_, v, node_yieldOf_error h.1 line, ?_⟩, _, w, nodes_blockOf_error h.2 opened closed, ?_⟩
    · rw [cause_atPlace]
    · rw [cause_atPlace]

/-- A page whose slot has a template. -/
def cardPages : Environment where
  templates := [("card", { name := "card", nodes := [.text "card"] })]

/-- The default body leaves nothing but a variable where the slot has a template. -/
theorem block_resolves_cardPages :
    let s : State := { context := { yields := [("side", "card")] }, scopes := Scopes.start .none }
    let body : List Node := [.text "none yet",
      .action 2 .body { targets := ["x"], commands := [[.const (.int 1)]] }]
    let block := nodes cardPages (runner cardPages 1) {
      name := "page", nodes := [] } (blockOf 1 3 .body .body "side" body) s
    let yielded := node cardPages (runner cardPages 1) { name := "page", nodes := [] }
      (yieldOf 4 .body "side") s
    Node.ArePlain body ∧ s.isCapturing = false ∧ s.context.isClaimed "side" = true ∧
    ∃ v w, yielded = .ok ⟨⟩ v ∧ block = .ok ⟨⟩ w ∧ v.output.root = "card" ∧ w.output = v.output ∧
      v.Shares w := by
  intro s body block yielded
  have hbody : Node.ArePlain body := by
    simp [body, Node.ArePlain, Node.IsPlain, CallsHave, Pipeline.leaves, Expr.leavesOfCommands,
      Expr.leavesOfOperands, Expr.leaves]
  have h := block_resolves cardPages 1 { name := "page", nodes := [] } .body .body "side" hbody
    (s := s) rfl rfl 1 3 4
  refine ⟨hbody, rfl, rfl, ?_⟩
  rcases h.1 rfl with ⟨text, v, w, hv, hw, hvo, hwo, hshares, -⟩ | ⟨f, g, v, w, hv, -⟩
  · refine ⟨v, w, hv, hw, ?_, hwo.trans hvo.symm, hshares⟩
    cases hv
    rfl
  · exact nomatch hv

end Eval

end Stencil
