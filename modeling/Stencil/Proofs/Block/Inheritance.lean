import Stencil.Proofs.Entries
import Stencil.Proofs.Render.Control
import Stencil.Proofs.Render.Frames
import Stencil.Proofs.Render.Literal

/-!
# Inheritance

A template that extends another one gives its blocks in place of the ones of the other. In a chain of
such templates the first one counts that has a block for a slot.

* `Passage` are texts and blocks of text, and `Inherits` says that a template extends a chain of
  others, all of them made of passages.
* `Render.execute_heir` says that a template that extends another one claims slots and writes nothing,
  `Render.execute_base` that the last template shows what has been claimed.
* `Environment.render_inherits` says what a chain renders to.
-/

namespace Stencil

open Render

/-! ## Templates in passages -/

/-- A part of a template: a text, or a block of texts with the lines of its two calls. -/
inductive Passage where
  | text (s : String)
  | block (slot : String) (body : List String) (opened closed : Nat)

namespace Passage

/-- The nodes of a passage. -/
def nodes : Passage → List Node
  | .text s => [.text s]
  | .block slot body opened closed =>
    .action opened .body { commands := [[.call "block", .const (.text slot)]] } ::
      (body.map .text ++ [.action closed .body { commands := [[.call "end_block"]] }])

/-- The body of the first block of a slot. -/
def body? (slot : String) (passages : List Passage) : Option String :=
  passages.findSome? fun
    | .text _ => none
    | .block key body _ _ => if key = slot then some (String.join body) else none

/-- The body of the first block of a slot in the first template that has one. -/
def definition? (slot : String) (heirs : List (List Passage)) : Option String :=
  heirs.findSome? (body? slot)

/-- What a passage shows below some heirs: a block shows its definition in them, or else its body. -/
def shown (heirs : List (List Passage)) : Passage → String
  | .text s => s
  | .block slot body _ _ => (definition? slot heirs).getD (String.join body)

/-- What a passage shows in a context: a block shows the content of its slot, or else its body. -/
def shownIn (c : RenderContext) : Passage → String
  | .text s => s
  | .block slot body _ _ => ((Table.get? slot c.blocks).map (·.content)).getD (String.join body)

end Passage

/-- The template of a name extends a chain of templates: all of them but the last one are heirs and
begin with the call that extends the next one. The chain is given by the passages of the heirs, from
the template of the name on, and by the passages of the base. -/
inductive Inherits (e : Environment) : String → List (List Passage) → List Passage → Prop where
  | base {name : String} {t : Template} {base : List Passage} : e.template name = .ok t →
    t.nodes = base.flatMap Passage.nodes → Inherits e name [] base
  | heir {name parent : String} {t : Template} {line : Nat} {passages base : List Passage}
    {heirs : List (List Passage)} : e.template name = .ok t →
    t.nodes = .action line .body { commands := [[.call "extends", .const (.text parent)]] } ::
      passages.flatMap Passage.nodes →
    Inherits e parent heirs base → Inherits e name (passages :: heirs) base

/-! ## Calls of a node -/

namespace Eval

open Run

variable {e : Environment} {run : Runner} {t : Template}

theorem nodes_append (ns ms : List Node) : nodes e run t (ns ++ ms) =
    nodes e run t ns >>= fun _ => nodes e run t ms := by
  induction ns with
  | nil => rw [List.nil_append, nodes, pure_bind]
  | cons n ns ih => rw [List.cons_append, nodes, nodes, ih, bind_assoc]

/-- A node with a call that writes by itself does what the call does. -/
theorem node_silent {c : Composition} {context : HtmlContext} {args : List Value} {line : Nat}
    {s u : State} (h : compose run context c args s = .ok nothing u) :
    node e run t (.action line context { commands := [.call c.name :: args.map .const] }) s =
      .ok ⟨⟩ u := by
  have hwritten : nothing.written t.escape context = "" := by cases t.escape <;> rfl
  rw [node_compose h, hwritten, Output.write_empty]

end Eval

/-! ## Texts in a block -/

namespace Output

variable {o : Output}

/-- A block gets the texts that are written in it, and what is below it gets those that it lets through. -/
theorem foldl_write_push (texts : List String) (f : Frame) : texts.foldl write (o.push f) =
    (if f.isThrough then texts.foldl write o else o).push (f.add (String.join texts)) := by
  have hrun (o : Output) : texts.foldl write o = o.run (texts.map .write) := by
    rw [run, List.foldl_map]
    rfl
  have hflat : ∀ step ∈ texts.map Step.write, step.isFlat = true := by
    rintro _ hstep
    obtain ⟨text, -, rfl⟩ := List.mem_map.1 hstep
    rfl
  have hdropping : o.dropping (texts.map .write) = o := by simp [dropping]
  have htexts : (texts.map Step.write).map Step.text = texts := by
    rw [List.map_map]
    exact List.map_id texts
  rw [hrun, hrun, run_push hflat, hdropping, htexts]

end Output

/-! ## Claims -/

namespace RenderContext

/-- The context with a block for the slot, unless that is claimed. -/
def claim (slot : String) (b : Block) (c : RenderContext) : RenderContext :=
  if c.isClaimed slot then c else c.fillSlot slot b

/-- The context with the blocks of some passages for their slots, as far as these are not claimed. -/
def claimAll (c : RenderContext) (passages : List Passage) : RenderContext :=
  passages.foldl (fun c p => match p with
    | .text _ => c
    | .block slot body _ _ => c.claim slot ⟨String.join body, .html⟩) c

variable {c : RenderContext}

theorem claim_eq (c : RenderContext) (slot : String) (b : Block) :
    c.claim slot b = { c with blocks := (c.claim slot b).blocks } := by
  unfold claim
  split <;> rfl

/-- A claim gives the slot its block if it has none. -/
theorem get?_claim (hc : c.yields = []) (slot key : String) (b : Block) :
    Table.get? key (c.claim slot b).blocks =
      (Table.get? key c.blocks).or (if slot = key then some b else none) := by
  have hclaimed : c.isClaimed slot = (Table.get? slot c.blocks).isSome := by
    unfold isClaimed
    rw [hc]
    rfl
  unfold claim
  rw [hclaimed]
  cases hb : Table.get? slot c.blocks with
  | some b' =>
    rw [if_pos Option.isSome_some]
    split
    · next hkey => rw [← hkey, hb, Option.some_or]
    · rw [Option.or_none]
  | none =>
    rw [if_neg (by simp), fillSlot, Table.get?_insert]
    split
    · next hkey => rw [← hkey, hb, Option.none_or]
    · rw [Option.or_none]

/-- Claims change nothing but the blocks. -/
theorem claimAll_eq (passages : List Passage) : ∀ c : RenderContext,
    c.claimAll passages = { c with blocks := (c.claimAll passages).blocks } := by
  induction passages with
  | nil => exact fun _ => rfl
  | cons p passages ih =>
    intro c
    cases p with
    | text s => exact ih c
    | block slot body opened closed =>
      refine (ih _).trans ?_
      change ({ c.claim slot _ with blocks := ((c.claim slot _).claimAll passages).blocks } :
        RenderContext) = { c with blocks := ((c.claim slot _).claimAll passages).blocks }
      generalize ((c.claim slot _).claimAll passages).blocks = blocks
      rw [claim_eq]

theorem claimAll_yields (c : RenderContext) (passages : List Passage) :
    (c.claimAll passages).yields = c.yields := by
  rw [claimAll_eq]

theorem claimAll_layout (c : RenderContext) (passages : List Passage) :
    (c.claimAll passages).layout = c.layout := by
  rw [claimAll_eq]

/-- A slot that has no block gets the first one that there is for it. -/
theorem get?_claimAll (key : String) (passages : List Passage) : ∀ c : RenderContext, c.yields = [] →
    Table.get? key (c.claimAll passages).blocks = (Table.get? key c.blocks).or
      ((Passage.body? key passages).map fun content => ⟨content, .html⟩) := by
  induction passages with
  | nil => exact fun c _ => (Option.or_none).symm
  | cons p passages ih =>
    intro c hc
    cases p with
    | text s => exact ih c hc
    | block slot body opened closed =>
      have hyields : (c.claim slot ⟨String.join body, .html⟩).yields = [] := by rw [claim_eq, hc]
      refine (ih _ hyields).trans ?_
      rw [get?_claim hc, Option.or_assoc]
      refine congrArg _ ?_
      unfold Passage.body?
      rw [List.findSome?_cons]
      by_cases hkey : slot = key
      · simp [hkey]
      · simp [hkey]

/-- Of a chain of templates the first one counts that has a block for the slot. -/
theorem get?_claimChain (key : String) (heirs : List (List Passage)) : ∀ c : RenderContext,
    c.yields = [] → Table.get? key (heirs.foldl claimAll c).blocks = (Table.get? key c.blocks).or
      ((Passage.definition? key heirs).map fun content => ⟨content, .html⟩) := by
  induction heirs with
  | nil => exact fun c _ => (Option.or_none).symm
  | cons passages heirs ih =>
    intro c hc
    rw [List.foldl_cons, ih _ ((claimAll_yields c passages).trans hc), get?_claimAll key passages c hc,
      Option.or_assoc]
    refine congrArg _ ?_
    unfold Passage.definition?
    rw [List.findSome?_cons]
    cases Passage.body? key passages with
    | some content => rfl
    | none => rfl

/-- There is no layout, no slot has a template, and all blocks are made for the body. -/
structure Plain (c : RenderContext) : Prop where
  layout : c.layout = none
  yields : c.yields = []
  kinds : ∀ slot b, Table.get? slot c.blocks = some b → b.kind = .html

theorem Plain.claimAll (h : c.Plain) (passages : List Passage) : (c.claimAll passages).Plain where
  layout := (claimAll_layout c passages).trans h.layout
  yields := (claimAll_yields c passages).trans h.yields
  kinds slot b hb := by
    rw [get?_claimAll slot passages c h.yields] at hb
    obtain hb | ⟨-, hb⟩ := Option.or_eq_some_iff.1 hb
    · exact h.kinds slot b hb
    · obtain ⟨content, -, rfl⟩ := Option.map_eq_some_iff.1 hb
      rfl

end RenderContext

/-! ## Passages of an heir -/

namespace Render

open Run

variable (e : Environment) (run : Runner) (t : Template)

theorem openBlock_capturing {s : State} (hs : s.isCapturing = true) (slot : String) :
    Eval.compose run .body .block [.text slot] s =
      .ok Eval.nothing { s with output := s.output.push (.capture slot .html "") } := by
  have hopen : Eval.openBlock run .body slot s =
      .ok ⟨⟩ { s with output := s.output.push (.capture slot .html "") } := by
    rw [Eval.openBlock, get_bind, if_pos hs]
    rfl
  change (Eval.openBlock run .body slot >>= fun _ => pure Eval.nothing) s = _
  rw [bind_ok hopen]
  rfl

theorem closeBlock_capture {s : State} {o : Output} {slot content : String}
    (hs : s.output = o.push (.capture slot .html content)) :
    ∃ events, Eval.compose run .body .endBlock [] s = .ok Eval.nothing
      { s with output := o, context := s.context.claim slot ⟨content, .html⟩, events } := by
  have hclose : ∃ events, Eval.closeBlock s = .ok ⟨⟩
      { s with output := o, context := s.context.claim slot ⟨content, .html⟩, events } := by
    rw [Eval.closeBlock, get_bind, hs]
    dsimp only [Output.push, Output.pop]
    unfold RenderContext.claim
    split
    · exact ⟨_, rfl⟩
    · exact ⟨_, rfl⟩
  obtain ⟨events, hclose⟩ := hclose
  refine ⟨events, ?_⟩
  change (Eval.closeBlock >>= fun _ => pure Eval.nothing) s = _
  rw [bind_ok hclose]
  rfl

/-- The texts of a block stand between its two calls. -/
theorem nodes_block {slot : String} {body : List String} {opened closed : Nat} {s s₁ s₂ : State}
    (hopen : Eval.compose run .body .block [.text slot] s = .ok Eval.nothing s₁)
    (hclose : Eval.compose run .body .endBlock []
      { s₁ with output := body.foldl Output.write s₁.output } = .ok Eval.nothing s₂) :
    Eval.nodes e run t (Passage.block slot body opened closed).nodes s = .ok ⟨⟩ s₂ := by
  have hopen : Eval.node e run t (.action opened .body
      { commands := [[.call "block", .const (.text slot)]] }) s = .ok ⟨⟩ s₁ := Eval.node_silent hopen
  have hclose : Eval.node e run t (.action closed .body { commands := [[.call "end_block"]] })
      { s₁ with output := body.foldl Output.write s₁.output } = .ok ⟨⟩ s₂ := Eval.node_silent hclose
  rw [Passage.nodes, Eval.nodes, bind_ok hopen, Eval.nodes_append, bind_ok (nodes_literal s₁),
    Eval.nodes, bind_ok hclose, Eval.nodes]
  rfl

/-- A passage of an heir claims its slot. -/
theorem nodes_heirPassage (p : Passage) {s : State} (hparent : s.parent.isSome = true)
    (houtput : s.output = { discardsRoot := true }) :
    ∃ events, Eval.nodes e run t p.nodes s =
      .ok ⟨⟩ { s with context := s.context.claimAll [p], events } := by
  cases p with
  | text text =>
    have hwrite : s.output.write text = s.output := by rw [houtput]; rfl
    refine ⟨s.events, ?_⟩
    change EStateM.Result.ok PUnit.unit { s with output := s.output.write text } = _
    rw [hwrite]
    rfl
  | block slot body opened closed =>
    have hcapturing : s.isCapturing = true := by
      unfold State.isCapturing
      rw [hparent, Bool.true_or]
    have houtput : body.foldl Output.write (s.output.push (.capture slot .html "")) =
        s.output.push (.capture slot .html (String.join body)) := by
      rw [Output.foldl_write_push, Frame.add, String.empty_append]
      rfl
    obtain ⟨events, hclose⟩ := closeBlock_capture run
      (s := { s with output := body.foldl Output.write (s.output.push (.capture slot .html "")) })
      houtput
    exact ⟨events, nodes_block e run t (openBlock_capturing run hcapturing slot) hclose⟩

/-- The passages of an heir claim their slots one after the other. -/
theorem nodes_heirPassages (passages : List Passage) : ∀ {s : State}, s.parent.isSome = true →
    s.output = { discardsRoot := true } → ∃ events,
      Eval.nodes e run t (passages.flatMap Passage.nodes) s =
        .ok ⟨⟩ { s with context := s.context.claimAll passages, events } := by
  induction passages with
  | nil => exact fun _ _ => ⟨_, rfl⟩
  | cons p passages ih =>
    intro s hparent houtput
    obtain ⟨events, hp⟩ := nodes_heirPassage e run t p hparent houtput
    obtain ⟨events', hpassages⟩ := ih (s := { s with context := s.context.claimAll [p], events })
      hparent houtput
    refine ⟨events', ?_⟩
    rw [List.flatMap_cons, Eval.nodes_append, bind_ok hp, hpassages]
    rfl

/-- **An heir claims slots and writes nothing.** -/
theorem execute_heir {name parent : String} {line : Nat} {passages : List Passage}
    (ht : e.template name = .ok t)
    (hnodes : t.nodes = .action line .body { commands := [[.call "extends", .const (.text parent)]] } ::
      passages.flatMap Passage.nodes) (dot : Value) {s : State} (hdepth : s.depth < maxDepth) :
    ∃ events, execute e run name dot s = .ok ""
      { s with parent := some parent, context := s.context.claimAll passages, events } := by
  let inside : State := { s with scopes := Scopes.start dot, output := {}, depth := s.depth + 1 }
  have hcompose : Eval.compose run .body .extend [.text parent] inside = .ok Eval.nothing
      { inside with parent := some parent, output := { discardsRoot := true } } := rfl
  have hextends : Eval.node e run t
      (.action line .body { commands := [[.call "extends", .const (.text parent)]] }) inside =
        .ok ⟨⟩ { inside with parent := some parent, output := { discardsRoot := true } } :=
    Eval.node_silent hcompose
  obtain ⟨events, hpassages⟩ := nodes_heirPassages e run t passages
    (s := { inside with parent := some parent, output := { discardsRoot := true } }) rfl rfl
  have hrun : (do Eval.nodes e run t t.nodes; finished) inside = .ok ""
      { inside with parent := some parent, output := { discardsRoot := true }
                    context := s.context.claimAll passages, events } := by
    have hall : Eval.nodes e run t t.nodes inside = .ok ⟨⟩
        { inside with parent := some parent, output := { discardsRoot := true }
                      context := s.context.claimAll passages, events } := by
      rw [hnodes, Eval.nodes, bind_ok hextends, hpassages]
    rw [bind_ok hall]
    rfl
  refine ⟨events, ?_⟩
  rw [execute_ok ht dot hdepth hrun]
  rfl

/-! ## Passages of the base -/

theorem closeBlock_other {s : State} {o : Output} {f : Frame} (hf : f = .discard ∨ f = .through)
    (hs : s.output = o.push f) :
    Eval.compose run .body .endBlock [] s = .ok Eval.nothing { s with output := o } := by
  have hclose : Eval.closeBlock s = .ok ⟨⟩ { s with output := o } := by
    rw [Eval.closeBlock, get_bind, hs]
    obtain rfl | rfl := hf
    · rfl
    · rfl
  change (Eval.closeBlock >>= fun _ => pure Eval.nothing) s = _
  rw [bind_ok hclose]
  rfl

/-- A block of the base shows the content of its slot and drops its body, or writes its body. -/
theorem openBlock_base {s : State} (hparent : s.parent = none) (hplain : s.context.Plain)
    (slot : String) :
    ∃ events, Eval.compose run .body .block [.text slot] s = .ok Eval.nothing
      { s with
        output := match Table.get? slot s.context.blocks with
          | some b => (s.output.write b.content).push .discard
          | none => s.output.push .through
        events } := by
  have hopen : ∃ events, Eval.openBlock run .body slot s = .ok ⟨⟩
      { s with
        output := match Table.get? slot s.context.blocks with
          | some b => (s.output.write b.content).push .discard
          | none => s.output.push .through
        events } := by
    have hcapturing : s.isCapturing = false := by
      unfold State.isCapturing
      rw [hparent, hplain.layout]
      rfl
    rw [Eval.openBlock, get_bind, if_neg (by simp [hcapturing]), hplain.yields]
    cases hb : Table.get? slot s.context.blocks with
    | none => exact ⟨_, rfl⟩
    | some b =>
      have hcontent : Eval.blockContent slot b .body = .ok b.content := by
        unfold Eval.blockContent
        rw [hplain.kinds slot b hb]
        rfl
      simp only [Table.get?, hcontent]
      exact ⟨_, rfl⟩
  obtain ⟨events, hopen⟩ := hopen
  refine ⟨events, ?_⟩
  change (Eval.openBlock run .body slot >>= fun _ => pure Eval.nothing) s = _
  rw [bind_ok hopen]
  rfl

/-- A passage of the base writes what it shows. -/
theorem nodes_basePassage (p : Passage) {s : State} {root : String} (hparent : s.parent = none)
    (hplain : s.context.Plain) (houtput : s.output = { root }) :
    ∃ events, Eval.nodes e run t p.nodes s =
      .ok ⟨⟩ { s with output := { root := root ++ p.shownIn s.context }, events } := by
  cases p with
  | text text =>
    refine ⟨s.events, ?_⟩
    change EStateM.Result.ok PUnit.unit { s with output := s.output.write text } = _
    rw [houtput]
    rfl
  | block slot body opened closed =>
    obtain ⟨events, hopen⟩ := openBlock_base run hparent hplain slot
    refine ⟨events, nodes_block e run t hopen ?_⟩
    change _ = EStateM.Result.ok _ { s with
      output := { root := root ++ ((Table.get? slot s.context.blocks).map Block.content).getD _ }
      events }
    cases hb : Table.get? slot s.context.blocks with
    | some b =>
      rw [closeBlock_other run (o := { root := root ++ b.content }) (.inl rfl)]
      · rfl
      · simp only [Output.foldl_write_push, houtput]
        rfl
    | none =>
      rw [closeBlock_other run (o := { root := root ++ String.join body }) (.inr rfl)]
      · rfl
      · simp only [Output.foldl_write_push, houtput, foldl_write]
        rfl

theorem nodes_basePassages (passages : List Passage) : ∀ {s : State} {root : String}, s.parent = none →
    s.context.Plain → s.output = { root } → ∃ events,
      Eval.nodes e run t (passages.flatMap Passage.nodes) s = .ok ⟨⟩ { s with
        output := { root := root ++ String.join (passages.map (Passage.shownIn s.context)) }
        events } := by
  induction passages with
  | nil =>
    intro s root _ _ houtput
    refine ⟨s.events, ?_⟩
    rw [List.map_nil, String.join_nil, String.append_empty, ← houtput]
    rfl
  | cons p passages ih =>
    intro s root hparent hplain houtput
    obtain ⟨events, hp⟩ := nodes_basePassage e run t p hparent hplain houtput
    obtain ⟨events', hpassages⟩ := ih
      (s := { s with output := { root := root ++ p.shownIn s.context }, events }) hparent hplain rfl
    refine ⟨events', ?_⟩
    rw [List.flatMap_cons, Eval.nodes_append, bind_ok hp, hpassages, List.map_cons, String.join_cons,
      String.append_assoc]

/-- **The base shows what has been claimed.** -/
theorem execute_base {name : String} {base : List Passage} (ht : e.template name = .ok t)
    (hnodes : t.nodes = base.flatMap Passage.nodes) (dot : Value) {s : State}
    (hdepth : s.depth < maxDepth) (hparent : s.parent = none) (hplain : s.context.Plain) :
    ∃ events, execute e run name dot s =
      .ok (String.join (base.map (Passage.shownIn s.context))) { s with events } := by
  obtain ⟨events, hpassages⟩ := nodes_basePassages e run t base
    (s := { s with scopes := Scopes.start dot, output := {}, depth := s.depth + 1 })
    hparent hplain rfl
  refine ⟨events, ?_⟩
  rw [← hnodes, String.empty_append] at hpassages
  rw [execute_ok ht dot hdepth (bind_ok hpassages _)]
  rfl

/-! ## Chains -/

/-- Behind an heir its parent is taken up, as long as there are parents left to take. -/
theorem followParents_heir {exec : Runner} {name parent : String} (n : Nat) (output : String)
    {s : State} (hs : s.parent = some parent) :
    followParents exec name (n + 1) output s =
      (exec parent s.root >>= followParents exec name n)
        { s with parent := none, events := .renderingParent parent name :: s.events } := by
  have htake : takeParent s = .ok (some parent) { s with parent := none } := by
    change EStateM.Result.ok s.parent _ = _
    rw [hs]
  rw [followParents, bind_ok htake]
  rfl

/-- A chain of templates renders to its base if there are enough parents left to take, and fails
otherwise. -/
theorem execute_chain {name : String} {heirs : List (List Passage)} {base : List Passage}
    (h : Inherits e name heirs base) (first : String) : ∀ (n : Nat) (dot : Value) {s : State},
    s.depth < maxDepth → s.parent = none → s.context.Plain →
    (heirs.length ≤ n → ∃ t, (execute e run name dot >>= followParents (execute e run) first n) s =
      .ok (String.join (base.map
        (Passage.shownIn (heirs.foldl RenderContext.claimAll s.context)))) t) ∧
    (n < heirs.length → ∃ t, (execute e run name dot >>= followParents (execute e run) first n) s =
      .error { cause := .extendsTooMany first } t) := by
  induction h with
  | base ht hnodes =>
    intro n dot s hdepth hparent hplain
    obtain ⟨events, hbase⟩ := execute_base e run _ ht hnodes dot hdepth hparent hplain
    refine ⟨fun _ => ⟨{ s with events }, ?_⟩, fun hlt => absurd hlt (Nat.not_lt_zero n)⟩
    rw [bind_ok hbase]
    exact followParents_none n _ hparent
  | @heir name parent t line passages base heirs ht hnodes _ ih =>
    intro n dot s hdepth hparent hplain
    obtain ⟨events, hheir⟩ := execute_heir e run t ht hnodes dot hdepth
    rw [bind_ok hheir]
    -- the heir has left its parent to be taken up, and its claims for the rest of the chain
    cases n with
    | zero =>
      refine ⟨fun hle => absurd hle (Nat.not_succ_le_zero _), fun _ => ?_⟩
      exact ⟨{ s with parent := none, context := s.context.claimAll passages, events }, rfl⟩
    | succ n =>
      rw [followParents_heir n "" rfl]
      obtain ⟨hshort, hlong⟩ := ih n _ (s := { s with
        parent := none
        context := s.context.claimAll passages
        events := .renderingParent parent first :: events }) hdepth rfl (hplain.claimAll passages)
      exact ⟨fun hle => hshort (Nat.le_of_succ_le_succ hle),
        fun hlt => hlong (Nat.lt_of_succ_lt_succ hlt)⟩

end Render

namespace Environment

/-- Slots that nothing has claimed before show what the heirs define. -/
theorem shownIn_claimChain {c : RenderContext} (hyields : c.yields = []) (hblocks : c.blocks = [])
    (heirs : List (List Passage)) (p : Passage) :
    p.shownIn (heirs.foldl RenderContext.claimAll c) = p.shown heirs := by
  cases p with
  | text s => rfl
  | block slot body opened closed =>
    change ((Table.get? slot _).map Block.content).getD _ = (Passage.definition? slot heirs).getD _
    rw [RenderContext.get?_claimChain slot heirs c hyields, hblocks, Table.get?, Option.none_or,
      Option.map_map]
    exact congrArg (Option.getD · _) Option.map_id'

/-- **Inheritance picks the most derived block.** A chain of no more than 32 heirs renders to the text
of its base, in which every block shows the first block that an heir has for its slot, the template of
the name first, or its own body if none of them has one. A longer chain is refused. -/
theorem render_inherits {e : Environment} {name : String} {heirs : List (List Passage)}
    {base : List Passage} (h : Inherits e name heirs base) (dot : Value) :
    (heirs.length ≤ 32 → (e.render { main := some name, dot }).1 =
      .ok (String.join (base.map (Passage.shown heirs)))) ∧
    (32 < heirs.length → (e.render { main := some name, dot }).1 =
        .error { cause := .extendsTooMany name } ∧
      ({ cause := .extendsTooMany name } : Fault).kind = .invalidOperation) := by
  obtain ⟨hshort, hlong⟩ := execute_chain e (runner e maxDepth) h name maxParents dot
    (s := { context := { main := some name, dot }, events := [.rendering name none] })
    (Nat.zero_lt_succ 63) rfl ⟨rfl, rfl, nofun⟩
  have hmain : renderMain e { context := { main := some name, dot } } =
      runChain (execute e (runner e maxDepth)) name dot
        { context := { main := some name, dot }, events := [.rendering name none] } := rfl
  unfold render EStateM.run
  rw [hmain]
  unfold runChain Run.keepingParent
  constructor
  · intro hle
    obtain ⟨t, ht⟩ := hshort hle
    rw [Run.guarded_ok ht, List.map_congr_left fun p _ => shownIn_claimChain rfl rfl heirs p]
  · intro hlt
    obtain ⟨t, ht⟩ := hlong hlt
    rw [Run.guarded_error ht]
    exact ⟨rfl, rfl⟩

/-- A page of a section of a site. -/
def sitePages : Environment where
  templates := [
    ("page", {
      name := "page"
      nodes := .action 1 .body { commands := [[.call "extends", .const (.text "section")]] } ::
        List.flatMap Passage.nodes [.text "dropped", .block "a" ["A", "0"] 2 2] }),
    ("section", {
      name := "section"
      nodes := .action 1 .body { commands := [[.call "extends", .const (.text "site")]] } ::
        List.flatMap Passage.nodes
          [.block "b" ["B1"] 2 2, .block "a" ["A1"] 3 3, .text "dropped", .block "b" ["B2"] 4 4] }),
    ("site", {
      name := "site"
      nodes := List.flatMap Passage.nodes
        [.text "<", .block "a" ["a"] 1 1, .block "b" [] 2 2, .block "c" ["c"] 3 3,
          .block "a" [] 4 4, .text ">"] })]

/-- Templates named by numbers of strokes, each of which extends the next one. -/
def longChain : Environment where
  templates := (List.range 34).map fun i =>
    (String.ofList (List.replicate i '|'),
      { name := String.ofList (List.replicate i '|')
        nodes := if i < 33 then
            [.action 1 .body { commands := [[.call "extends",
              .const (.text (String.ofList (List.replicate (i + 1) '|')))]] }]
          else [.text "end"] })

/-- The page has the first block for one slot and the section for another one; a third slot keeps what
the site has for it. A chain with 33 heirs is refused. -/
theorem render_inherits_sitePages :
    Inherits sitePages "page"
      [[.text "dropped", .block "a" ["A", "0"] 2 2],
        [.block "b" ["B1"] 2 2, .block "a" ["A1"] 3 3, .text "dropped", .block "b" ["B2"] 4 4]]
      [.text "<", .block "a" ["a"] 1 1, .block "b" [] 2 2, .block "c" ["c"] 3 3, .block "a" [] 4 4,
        .text ">"] ∧
    (sitePages.render { main := some "page" }).1 = .ok "<A0B1cA0>" ∧
    Inherits longChain "" (List.replicate 33 []) [.text "end"] ∧
    (longChain.render { main := some "" }).1 = .error { cause := .extendsTooMany "" } := by
  have hsite : Inherits sitePages "page"
      [[.text "dropped", .block "a" ["A", "0"] 2 2],
        [.block "b" ["B1"] 2 2, .block "a" ["A1"] 3 3, .text "dropped", .block "b" ["B2"] 4 4]]
      [.text "<", .block "a" ["a"] 1 1, .block "b" [] 2 2, .block "c" ["c"] 3 3, .block "a" [] 4 4,
        .text ">"] := .heir rfl rfl (.heir rfl rfl (.base rfl rfl))
  have hlong : Inherits longChain "" (List.replicate 33 []) [.text "end"] := by
    have hnone : ([] : List Passage).flatMap Passage.nodes = [] := rfl
    iterate 33 refine .heir rfl (congrArg (_ :: ·) hnone.symm) ?_
    exact .base rfl rfl
  exact ⟨hsite, (render_inherits hsite .undefined).1 (by decide), hlong,
    ((render_inherits hlong .undefined).2 (by decide)).1⟩

end Environment

end Stencil
