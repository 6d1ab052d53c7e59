import Stencil.Proofs.Entries
import Stencil.Proofs.Render.Follows
import Stencil.Proofs.Render.Frames

/-!
# The first claim of a slot

A slot that is claimed keeps what it has. Whatever is run, the tables of slots only grow, and a slot
that gets a block was claimed by nobody when the block was closed.

* `Caught` says where the text of an open block comes from: a call has opened it, and all that was
  written to it since is its text. `Environment.history_accounted` says so of every moment.
* `Grown` says how the tables of slots have changed since an earlier moment;
  `Environment.history_grown` says so of every two moments.
* `Environment.first_claim_wins` puts these together.
-/

namespace Stencil

open Render

/-! ## The frames of an output -/

namespace Output

/-- The frame with `height` other ones below it. -/
def frame? (o : Output) (height : Nat) : Option Frame := o.frames.reverse[height]?

/-- How many frames there are up to the one that what is written goes to; none if it goes to the text
outside of all blocks. -/
def catcher (o : Output) : Nat := (o.frames.dropWhile (·.isThrough)).length

theorem lt_of_frame? {o : Output} {height : Nat} {f : Frame} (h : o.frame? height = some f) :
    height < o.frames.length := by
  obtain ⟨hlt, -⟩ := List.getElem?_eq_some_iff.1 h
  simpa using hlt

theorem getElem?_reverse_cons (f : Frame) (fs : List Frame) (height : Nat) :
    (f :: fs).reverse[height]? = if height = fs.length then some f else fs.reverse[height]? := by
  rw [List.reverse_cons, List.getElem?_append, List.length_reverse]
  split
  · next h => rw [if_neg (Nat.ne_of_lt h)]
  · next h =>
    split
    · next heq => simp [heq]
    · next hne =>
      have : height - fs.length ≠ 0 := by omega
      rw [List.getElem?_eq_none (by simp; omega), List.getElem?_eq_none (by simp; omega)]

theorem frame?_push (o : Output) (f : Frame) (height : Nat) :
    (o.push f).frame? height =
      if height = o.frames.length then some f else o.frame? height :=
  getElem?_reverse_cons f o.frames height

/-- A frame that does not let text through gets it, and no other one does. -/
theorem getElem?_add (text : String) (height : Nat) {f : Frame} (hf : f.isThrough = false)
    (fs : List Frame) :
    (f.add text :: fs).reverse[height]? = (f :: fs).reverse[height]?.map fun g =>
      if height + 1 = ((f :: fs).dropWhile (·.isThrough)).length then g.add text else g := by
  rw [List.dropWhile_cons_of_neg (by simp [hf]), List.length_cons, getElem?_reverse_cons,
    getElem?_reverse_cons]
  by_cases hheight : height = fs.length
  · simp [hheight]
  · simp [hheight]

theorem getD_writeFrames_through (text : String) (fs : List Frame) :
    (writeFrames text (.through :: fs)).getD (.through :: fs) =
      .through :: (writeFrames text fs).getD fs := by
  rw [writeFrames]
  cases writeFrames text fs <;> rfl

theorem length_writeFrames (text : String) (fs : List Frame) :
    ((writeFrames text fs).getD fs).length = fs.length := by
  induction fs with
  | nil => rfl
  | cons f fs ih =>
    cases f with
    | capture slot kind content => rfl
    | discard => rfl
    | through => rw [getD_writeFrames_through, List.length_cons, ih, List.length_cons]

theorem getElem?_writeFrames (text : String) (height : Nat) (fs : List Frame) :
    ((writeFrames text fs).getD fs).reverse[height]? = fs.reverse[height]?.map fun f =>
      if height + 1 = (fs.dropWhile (·.isThrough)).length then f.add text else f := by
  induction fs with
  | nil => rfl
  | cons f fs ih =>
    cases f with
    | capture slot kind content => exact getElem?_add text height (f := .capture ..) rfl fs
    | discard => exact getElem?_add text height (f := .discard) rfl fs
    | through =>
      rw [getD_writeFrames_through, List.dropWhile_cons_of_pos rfl, getElem?_reverse_cons,
        getElem?_reverse_cons, length_writeFrames, ih]
      split
      · simp [Frame.add]
      · rfl

/-- Behind the innermost frame the other ones are as they were. -/
theorem frame?_tail {o o' : Output} (h : o'.frames = o.frames.tail) {height : Nat} {f : Frame}
    (hf : o'.frame? height = some f) :
    o.frame? height = some f ∧ height + 1 < o.frames.length := by
  have hlt := lt_of_frame? hf
  unfold frame? at hf ⊢
  rw [h] at hf hlt
  cases hframes : o.frames with
  | nil =>
    rw [hframes] at hlt
    exact absurd hlt (Nat.not_lt_zero _)
  | cons g fs =>
    rw [hframes] at hf hlt
    change height < fs.length at hlt
    rw [getElem?_reverse_cons, if_neg (Nat.ne_of_lt hlt)]
    exact ⟨hf, Nat.succ_lt_succ hlt⟩

theorem frame?_write (o : Output) (text : String) (height : Nat) :
    (o.write text).frame? height = (o.frame? height).map fun f =>
      if height + 1 = o.catcher then f.add text else f := by
  have hframes : (o.write text).frames = (writeFrames text o.frames).getD o.frames := by
    unfold write
    split
    · next frames h => rw [h]; rfl
    · next h =>
      rw [h]
      split <;> rfl
  unfold frame?
  rw [hframes]
  exact getElem?_writeFrames text height o.frames

end Output

/-! ## What an open block has caught -/

namespace Moment

/-- What is written to the frame with `height` other ones below it, in the template at a depth. -/
def writtenTo (depth height : Nat) (m : Moment) : String :=
  match m.deed with
  | .writes text =>
    if m.state.depth = depth ∧ m.state.output.catcher = height + 1 then text else ""
  | _ => ""

/-- The frame with `height` other ones below it stays open: a template runs inside of its own one, or
it is there and not the one that is closed. -/
def LeavesOpen (depth height : Nat) (m : Moment) : Prop :=
  depth < m.state.depth ∨ m.state.depth = depth ∧ height < m.state.output.frames.length ∧
    (m.deed = .closes → height + 1 < m.state.output.frames.length)

theorem writtenTo_of_lt {m : Moment} {depth height : Nat} (h : depth < m.state.depth) :
    m.writtenTo depth height = "" := by
  unfold writtenTo
  split
  · rw [if_neg fun hm => Nat.lt_irrefl _ (hm.1 ▸ h)]
  · rfl

end Moment

/-- All that is written to a frame. -/
def History.written (depth height : Nat) (H : List Moment) : String :=
  String.join (H.map (Moment.writtenTo depth height))

theorem History.written_eq_empty {depth height : Nat} {H : List Moment}
    (h : ∀ m ∈ H, m.writtenTo depth height = "") : written depth height H = "" := by
  induction H with
  | nil => rfl
  | cons m H ih =>
    obtain ⟨hm, hH⟩ := List.forall_mem_cons.1 h
    rw [written, List.map_cons, String.join_cons, hm, String.empty_append]
    exact ih hH

/-- Where the kind and the text of a capturing frame come from: a call in some context has opened the
block, the kind is the one for this context, the block has stayed open since, and its text is what has
been written to it since. -/
def Caught (past : List Moment) (depth height : Nat) (slot : String) (kind : BlockKind)
    (content : String) : Prop :=
  ∃ earlier context s since, past = earlier ++ ⟨.captures slot context, s⟩ :: since ∧
    s.depth = depth ∧ s.output.frames.length = height ∧ kind = .ofContext context ∧
    (∀ m ∈ since, m.LeavesOpen depth height) ∧ content = History.written depth height since

namespace Caught

variable {past : List Moment} {depth height : Nat} {slot content : String} {kind : BlockKind}

theorem append (h : Caught past depth height slot kind content) {H : List Moment}
    (hH : ∀ m ∈ H, m.LeavesOpen depth height) :
    Caught (past ++ H) depth height slot kind (content ++ History.written depth height H) := by
  obtain ⟨earlier, context, s, since, rfl, hdepth, hheight, hkind, hsince, rfl⟩ := h
  refine ⟨earlier, context, s, since ++ H, by simp, hdepth, hheight, hkind,
    List.forall_mem_append.2 ⟨hsince, hH⟩, ?_⟩
  simp [History.written, String.join_append]

/-- Nothing is written to the frame. -/
theorem append_quiet (h : Caught past depth height slot kind content) {H : List Moment}
    (hH : ∀ m ∈ H, m.LeavesOpen depth height) (hquiet : ∀ m ∈ H, m.writtenTo depth height = "") :
    Caught (past ++ H) depth height slot kind content := by
  simpa [History.written_eq_empty hquiet] using h.append hH

end Caught

theorem Render.State.closed_frames (s : State) : s.closed.output.frames = s.output.frames.tail := by
  unfold closed
  split
  · next h => rw [h]; rfl
  · next h =>
    rw [h]
    split <;> rfl
  · next h => rw [h]; rfl

namespace Deed

variable {s : State} {height : Nat} {slot content : String} {kind : BlockKind}

/-- A frame that is there and stays as it is. -/
theorem frame?_same {d : Deed} (hd : ∀ text, d ≠ .writes text)
    (hclose : d = .closes → height + 1 < s.output.frames.length)
    (h : s.output.frame? height = some (.capture slot kind content)) :
    ∃ old, s.output.frame? height = some (.capture slot kind old) ∧
      content = old ++ (Moment.mk d s).writtenTo s.depth height ∧
      (Moment.mk d s).LeavesOpen s.depth height := by
  refine ⟨content, h, ?_, .inr ⟨rfl, Output.lt_of_frame? h, hclose⟩⟩
  unfold Moment.writtenTo
  split
  · next text heq => exact absurd heq (hd text)
  · rw [String.append_empty]

/-- A deed that stands by itself opens a capturing frame, or it writes to one that stays open. -/
theorem frame?_apply {d : Deed} (hd : d.isSingle = true)
    (h : (d.apply s).output.frame? height = some (.capture slot kind content)) :
    (∃ context, d = .captures slot context ∧ kind = .ofContext context ∧
      height = s.output.frames.length ∧ content = "") ∨
    ∃ old, s.output.frame? height = some (.capture slot kind old) ∧
      content = old ++ (Moment.mk d s).writtenTo s.depth height ∧
      (Moment.mk d s).LeavesOpen s.depth height := by
  cases d with
  | begins b => cases hd
  | ends b => cases hd
  | writes text =>
    rw [apply, Output.frame?_write] at h
    obtain ⟨f, hf, hadd⟩ := Option.map_eq_some_iff.1 h
    have hopen : (Moment.mk (.writes text) s).LeavesOpen s.depth height :=
      .inr ⟨rfl, Output.lt_of_frame? hf, by simp⟩
    have hwritten : (Moment.mk (.writes text) s).writtenTo s.depth height =
        if height + 1 = s.output.catcher then text else "" := by
      simp [Moment.writtenTo, eq_comm]
    rw [hwritten]
    split at hadd
    · next hcatcher =>
      rw [if_pos hcatcher]
      cases f with
      | capture slot' kind' old =>
        cases hadd
        exact .inr ⟨old, hf, rfl, hopen⟩
      | discard => cases hadd
      | through => cases hadd
    · next hcatcher =>
      cases hadd
      exact .inr ⟨content, hf, by rw [if_neg hcatcher, String.append_empty], hopen⟩
  | captures slot' context =>
    rw [apply, Output.frame?_push] at h
    split at h
    · next hheight =>
      cases h
      exact .inl ⟨context, rfl, rfl, hheight, rfl⟩
    · exact .inr (frame?_same (by simp) (by simp) h)
  | drops slot' =>
    rw [apply, Output.frame?_push] at h
    split at h
    · cases h
    · exact .inr (frame?_same (by simp) (by simp) h)
  | passes slot' =>
    rw [apply, Output.frame?_push] at h
    split at h
    · cases h
    · exact .inr (frame?_same (by simp) (by simp) h)
  | closes =>
    obtain ⟨hf, hlt⟩ := Output.frame?_tail s.closed_frames h
    exact .inr (frame?_same (by simp) (fun _ => hlt) hf)
  | maps slot' template => exact .inr (frame?_same (by simp) (by simp) h)
  | inherits template => exact .inr (frame?_same (by simp) (by simp) h)
  | takes => exact .inr (frame?_same (by simp) (by simp) h)

end Deed

/-! ## Blocks are accounted for -/

/-- All capturing frames of the running template are accounted for. -/
def Accounted (past : List Moment) (s : State) : Prop :=
  ∀ height slot kind content, s.output.frame? height = some (.capture slot kind content) →
    Caught past s.depth height slot kind content

namespace Accounted

variable {past : List Moment} {s t : State}

/-- The beginning and the end of a stretch open and close nothing. -/
theorem mark (h : Accounted past s) {d : Deed} (hd : d.isSingle = false) (hdepth : t.depth = s.depth)
    (houtput : t.output = s.output) : Accounted (past ++ [⟨d, s⟩]) t := by
  intro height slot kind content hframe
  rw [houtput] at hframe
  rw [hdepth]
  obtain ⟨old, hold, rfl, hopen⟩ := Deed.frame?_same (d := d) (by rintro text rfl; cases hd)
    (by rintro rfl; cases hd) hframe
  have := (h height slot kind old hold).append (H := [⟨d, s⟩]) (by simpa using hopen)
  simpa [History.written] using this

/-- What goes on in templates that are deeper does not reach the frames of this one. -/
theorem deeper (h : Accounted past s) {H : List Moment} (hH : ∀ m ∈ H, s.depth < m.state.depth) :
    Accounted (past ++ H) s := fun height slot kind content hframe =>
  (h height slot kind content hframe).append_quiet (fun m hm => .inl (hH m hm)) fun m hm =>
    Moment.writtenTo_of_lt (hH m hm)

end Accounted

theorem invariant_accounted : Path.Invariant Accounted where
  quiet _ _ _ _ h := h
  single past s d hd h := by
    intro height slot kind content hframe
    rw [d.depth_apply]
    obtain ⟨context, rfl, rfl, rfl, rfl⟩ | ⟨old, hold, rfl, hopen⟩ := d.frame?_apply hd hframe
    · exact ⟨past, context, s, [], rfl, rfl, rfl, rfl, by simp, rfl⟩
    · have := (h height slot kind old hold).append (H := [⟨d, s⟩]) (by simpa using hopen)
      simpa [History.written] using this
  enter past s b I hallows h := by
    cases b with
    | node n => exact h.mark rfl rfl rfl
    | chain name => exact h.mark rfl rfl rfl
    | template name dot =>
      intro height slot kind content hframe
      cases hframe
  leave past s b I t hI h ht := by
    rw [← List.cons_append, ← List.append_assoc]
    cases b with
    | node n => exact ht.mark rfl rfl rfl
    | chain name => exact ht.mark rfl rfl rfl
    | template name dot =>
      -- the frames are those in front of the template, and what it has done is deeper
      have hdepth : t.depth = s.depth + 1 := hI.depth_eq
      have hdeeper : ∀ m ∈ I ++ [⟨.ends (.template name dot), t⟩], s.depth < m.state.depth := by
        rw [List.forall_mem_append]
        exact ⟨hI.depth_le, by simp [hdepth]⟩
      have hs := (h.mark (d := .begins (.template name dot)) (t := s) rfl rfl rfl).deeper hdeeper
      intro height slot kind content hframe
      have hdepth' : ((Stretch.template name dot).leave s t).depth = s.depth :=
        congrArg Nat.pred hdepth
      rw [hdepth']
      simpa using hs height slot kind content hframe

/-- **The text of an open block is what has been written to it**, in every moment of a rendering. -/
theorem Environment.history_accounted (e : Environment) (c : RenderContext) :
    Along Accounted [] (e.history c) := by
  obtain ⟨H, H', t, t', mainContent, inLayout, hhistory, hH, hH'⟩ := e.history_paths c
  obtain ⟨halong, ht⟩ := invariant_accounted.along hH [] (fun height slot kind content h => by cases h)
  rw [hhistory]
  exact halong.append (invariant_accounted.along hH' _ ht).1

/-! ## The tables of slots -/

/-- The blocks stay what they are, and slots with a template keep having one. -/
structure RenderContext.Grows (c c' : RenderContext) : Prop where
  blocks : ∀ slot b, Table.get? slot c.blocks = some b → Table.get? slot c'.blocks = some b
  yields : ∀ slot, Table.contains slot c.yields = true → Table.contains slot c'.yields = true

namespace RenderContext

variable {c c' c'' : RenderContext} {slot : String}

theorem Grows.refl (c : RenderContext) : c.Grows c := ⟨fun _ _ h => h, fun _ h => h⟩

theorem Grows.trans (h : c.Grows c') (h' : c'.Grows c'') : c.Grows c'' :=
  ⟨fun slot b hb => h'.blocks slot b (h.blocks slot b hb),
    fun slot hs => h'.yields slot (h.yields slot hs)⟩

theorem grows_mapSlot (c : RenderContext) (slot template : String) :
    c.Grows (c.mapSlot slot template) := by
  refine ⟨fun _ _ h => h, fun key h => ?_⟩
  unfold mapSlot Table.contains
  rw [Table.get?_insert]
  split
  · rfl
  · exact h

/-- A slot that nobody claims has neither a template nor a block. -/
theorem isClaimed_eq_false : c.isClaimed slot = false ↔
    Table.get? slot c.yields = none ∧ Table.get? slot c.blocks = none := by
  simp [isClaimed, Table.contains]

theorem grows_fillSlot (h : c.isClaimed slot = false) (b : Block) : c.Grows (c.fillSlot slot b) := by
  refine ⟨fun key b' hb => ?_, fun _ h => h⟩
  have hne : slot ≠ key := by
    rintro rfl
    rw [(isClaimed_eq_false.1 h).2] at hb
    cases hb
  unfold fillSlot
  rw [Table.get?_insert, if_neg hne, hb]

end RenderContext

open RenderContext

/-- The block is what the innermost frame has caught for the slot, and the slot is free. -/
def Render.State.Offers (s : State) (slot : String) (b : Block) : Prop :=
  Table.get? slot s.context.yields = none ∧ Table.get? slot s.context.blocks = none ∧
    ∃ frames, s.output.frames = .capture slot b.kind b.content :: frames

namespace Deed

variable {d : Deed} {s : State} {slot : String} {b : Block}

/-- What closing a block does to the slots. -/
theorem context_closed (s : State) : s.closed.context = s.context ∨
    ∃ slot b, s.Offers slot b ∧ s.closed.context = s.context.fillSlot slot b := by
  unfold State.closed
  split
  · exact .inl rfl
  · next key kind content frames hframes =>
    split
    · exact .inl rfl
    · next hclaimed =>
      obtain ⟨hyields, hblocks⟩ := isClaimed_eq_false.1 (Bool.eq_false_iff.2 hclaimed)
      exact .inr ⟨key, ⟨content, kind⟩, ⟨hyields, hblocks, frames, hframes⟩, rfl⟩
  · exact .inl rfl

theorem grows_apply (d : Deed) (s : State) : s.context.Grows (d.apply s).context := by
  cases d with
  | closes =>
    obtain h | ⟨slot, b, ⟨hyields, hblocks, -⟩, h⟩ := context_closed s
    · rw [apply, h]
      exact .refl _
    · rw [apply, h]
      exact grows_fillSlot (isClaimed_eq_false.2 ⟨hyields, hblocks⟩) b
  | maps slot template => exact grows_mapSlot _ slot template
  | _ => exact .refl _

/-- Only a block that is closed fills a slot. -/
theorem gain_apply (hs : Table.get? slot s.context.blocks = none)
    (h : Table.get? slot (d.apply s).context.blocks = some b) : d = .closes ∧ s.Offers slot b := by
  have hsame (heq : (d.apply s).context.blocks = s.context.blocks) : False := by
    rw [heq, hs] at h
    cases h
  cases d with
  | closes =>
    obtain heq | ⟨key, b', hoffers, heq⟩ := context_closed s
    · exact (hsame (congrArg RenderContext.blocks heq)).elim
    · rw [apply, heq] at h
      unfold fillSlot at h
      rw [Table.get?_insert] at h
      split at h
      · next hkey =>
        cases h
        exact ⟨rfl, hkey ▸ hoffers⟩
      · rw [hs] at h
        cases h
  | _ => exact (hsame rfl).elim

end Deed

/-- The tables of slots have only grown since each moment of the past, and a slot that has got a block
since got it where a block was closed that had it to offer. -/
def Grown (past : List Moment) (s : State) : Prop :=
  ∀ before m between, past = before ++ m :: between → m.state.context.Grows s.context ∧
    ∀ slot b, Table.get? slot m.state.context.blocks = none →
      Table.get? slot s.context.blocks = some b →
      ∃ earlier u later, m :: between = earlier ++ ⟨.closes, u⟩ :: later ∧ u.Offers slot b

namespace Grown

variable {past : List Moment} {s t : State}

theorem step (h : Grown past s) {d : Deed} (hgrows : s.context.Grows t.context)
    (hgain : ∀ slot b, Table.get? slot s.context.blocks = none →
      Table.get? slot t.context.blocks = some b → d = .closes ∧ s.Offers slot b) :
    Grown (past ++ [⟨d, s⟩]) t := by
  intro before m between heq
  obtain rfl | ⟨between, last, rfl⟩ := List.eq_nil_or_concat between
  · -- the moment is the last one
    obtain ⟨rfl, hlast⟩ := List.append_inj' heq rfl
    cases hlast
    refine ⟨hgrows, fun slot b hs ht => ?_⟩
    obtain ⟨rfl, hoffers⟩ := hgain slot b hs ht
    exact ⟨[], s, [], rfl, hoffers⟩
  · rw [List.concat_eq_append, ← List.cons_append, ← List.append_assoc] at heq
    obtain ⟨rfl, hlast⟩ := List.append_inj' heq rfl
    cases hlast
    obtain ⟨hgrown, hgained⟩ := h before m between rfl
    refine ⟨hgrown.trans hgrows, fun slot b hm ht => ?_⟩
    rw [List.concat_eq_append, ← List.cons_append]
    cases hmid : Table.get? slot s.context.blocks with
    | none =>
      obtain ⟨rfl, hoffers⟩ := hgain slot b hmid ht
      exact ⟨m :: between, s, [], rfl, hoffers⟩
    | some b' =>
      obtain rfl := Option.some.inj ((hgrows.blocks slot b' hmid).symm.trans ht)
      obtain ⟨earlier, u, later, hu, hoffers⟩ := hgained slot b' hm hmid
      exact ⟨earlier, u, later ++ [⟨d, s⟩], by rw [hu]; simp, hoffers⟩

/-- A stretch begins or ends without any effect on the slots. -/
theorem mark (h : Grown past s) (d : Deed) (hcontext : t.context = s.context) :
    Grown (past ++ [⟨d, s⟩]) t := by
  refine h.step (by rw [hcontext]; exact .refl _) fun slot b hs ht => ?_
  rw [hcontext, hs] at ht
  cases ht

end Grown

theorem invariant_grown : Path.Invariant Grown where
  quiet _ _ _ _ h := h
  single past s d _ h := h.step (d.grows_apply s) fun slot b hs ht => Deed.gain_apply hs ht
  enter past s b I _ h := h.mark _ (by cases b <;> rfl)
  leave past s b I t _ _ ht := by
    rw [← List.cons_append, ← List.append_assoc]
    exact ht.mark _ (by cases b <;> rfl)

/-- **The tables of slots only grow** in a rendering. -/
theorem Environment.history_grown (e : Environment) (c : RenderContext) :
    Along Grown [] (e.history c) := by
  obtain ⟨H, H', t, t', mainContent, inLayout, hhistory, hH, hH'⟩ := e.history_paths c
  obtain ⟨halong, ht⟩ := invariant_grown.along hH [] (by simp [Grown])
  rw [hhistory]
  exact halong.append (invariant_grown.along hH' _ ht).1

namespace Environment

/-- **The first claim of a slot wins.** From any moment of a rendering to a later one the tables of
slots only grow: a block that is there stays there with its content and kind, and a slot that has a
template goes on having one. For a slot that gets a block in between there is the moment in which the
block was closed. The slot was free then, and the content and the kind of the block are what its frame
had caught: a call in some context had opened it, the kind is the one for this context, and the content
is all that was written to the frame. What a node does is what happens from its beginning to its end,
which it has even if it fails. -/
theorem first_claim_wins (e : Environment) (c : RenderContext) :
    (History.renderMain e).run = renderMain e ∧
    (∀ before n s after, e.history c = before ++ ⟨.begins (.node n), s⟩ :: after →
      ∃ inside t rest, after = inside ++ ⟨.ends (.node n), t⟩ :: rest ∧ Path s inside t) ∧
    ∀ before m between m' after, e.history c = before ++ m :: (between ++ m' :: after) →
      (∀ slot b, Table.get? slot m.state.context.blocks = some b →
        Table.get? slot m'.state.context.blocks = some b) ∧
      (∀ slot, Table.contains slot m.state.context.yields = true →
        Table.contains slot m'.state.context.yields = true) ∧
      ∀ slot b, Table.get? slot m.state.context.blocks = none →
        Table.get? slot m'.state.context.blocks = some b →
        ∃ earlier u later height, m :: between = earlier ++ ⟨.closes, u⟩ :: later ∧
          Table.get? slot u.context.yields = none ∧ Table.get? slot u.context.blocks = none ∧
          u.output.frames.length = height + 1 ∧
          Caught (before ++ earlier) u.depth height slot b.kind b.content := by
  refine ⟨History.run_renderMain e, fun before n s after h => ?_,
    fun before m between m' after h => ?_⟩
  · obtain ⟨inside, t, rest, hafter, -, hinside⟩ := history_stretch h
    exact ⟨inside, t, rest, hafter, hinside⟩
  · obtain ⟨hgrows, hgain⟩ := e.history_grown c (before ++ m :: between) m' after (by simp [h])
      before m between rfl
    refine ⟨hgrows.blocks, hgrows.yields, fun slot b hm hm' => ?_⟩
    obtain ⟨earlier, u, later, hu, hyields, hblocks, frames, hframes⟩ := hgain slot b hm hm'
    refine ⟨earlier, u, later, frames.length, hu, hyields, hblocks, by rw [hframes]; rfl, ?_⟩
    have hsplit : e.history c = (before ++ earlier) ++ ⟨.closes, u⟩ :: (later ++ m' :: after) := by
      rw [h, ← List.cons_append, hu]
      simp
    refine e.history_accounted c _ _ _ hsplit _ slot b.kind b.content ?_
    unfold Output.frame?
    simp [hframes]

/-- A page with a block inside of which it runs a part, which has a block for the same slot. -/
def claimingPages : Environment where
  templates := [
    ("page", { name := "page", nodes := [
      .action 1 .script { commands := [[.call "define_block", .const (.text "s")]] },
      .text "x",
      .action 2 .script { commands := [[.call "exec", .const (.text "part")]] },
      .action 3 .script { commands := [[.call "end_block"]] }] }),
    ("part", { name := "part", nodes := [
      .action 1 .body { commands := [[.call "define_block", .const (.text "s")]] },
      .text "y",
      .action 2 .body { commands := [[.call "end_block"]] }] })]

/-- The node that runs the part ends, and the slot is filled from the block of the part, which is
closed first. -/
theorem first_claim_wins_claimingPages :
    (∃ before n s inside t rest, claimingPages.history { main := some "page" } =
        before ++ ⟨.begins (.node n), s⟩ :: (inside ++ ⟨.ends (.node n), t⟩ :: rest) ∧
      n = .action 2 .script { commands := [[.call "exec", .const (.text "part")]] } ∧
      Path s inside t) ∧
    ∃ m between m', claimingPages.history { main := some "page" } =
        [] ++ m :: (between ++ m' :: []) ∧
      Table.get? "s" m.state.context.blocks = none ∧
      Table.get? "s" m'.state.context.blocks = some ⟨"y", .ofContext .body⟩ ∧
      ∃ earlier u later height, m :: between = earlier ++ ⟨.closes, u⟩ :: later ∧
        Table.get? "s" u.context.yields = none ∧ Table.get? "s" u.context.blocks = none ∧
        u.output.frames.length = height + 1 ∧
        Caught ([] ++ earlier) u.depth height "s" (.ofContext .body) "y" := by
  have h := claimingPages.first_claim_wins { main := some "page" }
  constructor
  · obtain ⟨s, hsplit⟩ : ∃ s, claimingPages.history { main := some "page" } =
        (claimingPages.history { main := some "page" }).take 9 ++
          ⟨.begins (.node (.action 2 .script
            { commands := [[.call "exec", .const (.text "part")]] })), s⟩ ::
          (claimingPages.history { main := some "page" }).drop 10 := ⟨_, rfl⟩
    obtain ⟨inside, t, rest, hafter, hinside⟩ := h.2.1 _ _ s _ hsplit
    rw [hafter] at hsplit
    exact ⟨_, _, s, inside, t, rest, hsplit, rfl, hinside⟩
  · obtain ⟨m, m', hsplit, hm, hm'⟩ : ∃ m m', claimingPages.history { main := some "page" } =
        [] ++ m :: ((claimingPages.history { main := some "page" }).tail.dropLast ++ m' :: []) ∧
        Table.get? "s" m.state.context.blocks = none ∧
        Table.get? "s" m'.state.context.blocks = some ⟨"y", .ofContext .body⟩ :=
      ⟨_, _, rfl, rfl, rfl⟩
    exact ⟨m, _, m', hsplit, hm, hm', (h.2.2 [] m _ m' [] hsplit).2.2 "s" _ hm hm'⟩

end Environment

end Stencil
