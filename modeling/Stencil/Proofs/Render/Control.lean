import Stencil.Proofs.Render.Follows
import Stencil.Proofs.Render.Keeps

/-!
# The control of a rendering

Which template is running, which one it extends, and whether it is rendered for the layout. A template
that is run inside another one gives all of this back, also if it fails.

* `State.Resumes` says that the same template goes on in another state.
* `Render.runner_resumes` says that this is so behind every template that is run,
  `Eval.compose_attends` behind every call but the one that extends a template.
* `Environment.history_depth` says that the depth counts the templates that are running.
* `Environment.control_restored` puts these together.
-/

namespace Stencil

open Render

/-! ## States in which a template goes on -/

namespace Render.State

/-- The part of the state that is the same for a whole main template and for a whole layout. -/
structure Steady (s t : State) : Prop where
  mainContent : t.mainContent = s.mainContent
  inLayout : t.inLayout = s.inLayout
  main : t.context.main = s.context.main
  layout : t.context.layout = s.context.layout
  dot : t.context.dot = s.context.dot

/-- The template that runs in the first state goes on in the second one. -/
structure Resumes (s t : State) : Prop extends Steady s t where
  depth : t.depth = s.depth
  parent : t.parent = s.parent

/-- The template goes on with its variables, and its text is dropped only if it was before. -/
structure Attends (s t : State) : Prop extends Resumes s t where
  scopes : t.scopes = s.scopes
  discardsRoot : t.output.discardsRoot = s.output.discardsRoot

variable {s t u : State}

theorem Steady.refl (s : State) : s.Steady s := ⟨rfl, rfl, rfl, rfl, rfl⟩

theorem Steady.trans (h : s.Steady t) (h' : t.Steady u) : s.Steady u where
  mainContent := h'.mainContent.trans h.mainContent
  inLayout := h'.inLayout.trans h.inLayout
  main := h'.main.trans h.main
  layout := h'.layout.trans h.layout
  dot := h'.dot.trans h.dot

theorem Resumes.refl (s : State) : s.Resumes s := ⟨.refl s, rfl, rfl⟩

theorem Resumes.trans (h : s.Resumes t) (h' : t.Resumes u) : s.Resumes u :=
  ⟨h.toSteady.trans h'.toSteady, h'.depth.trans h.depth, h'.parent.trans h.parent⟩

/-- Blocks are captured behind a template if they were before it. -/
theorem Resumes.isCapturing (h : s.Resumes t) : t.isCapturing = s.isCapturing := by
  unfold State.isCapturing
  rw [h.parent, h.layout, h.inLayout]

theorem Attends.refl (s : State) : s.Attends s := ⟨.refl s, rfl, rfl⟩

theorem Attends.trans (h : s.Attends t) (h' : t.Attends u) : s.Attends u :=
  ⟨h.toResumes.trans h'.toResumes, h'.scopes.trans h.scopes, h'.discardsRoot.trans h.discardsRoot⟩

/-- The slots, the text and the log may change. -/
theorem Attends.change (h : s.Attends t) {c : RenderContext} {o : Output}
    (hmain : c.main = t.context.main) (hlayout : c.layout = t.context.layout)
    (hdot : c.dot = t.context.dot) (ho : o.discardsRoot = t.output.discardsRoot) (events : List Event) :
    s.Attends { t with context := c, output := o, events } :=
  h.trans ⟨⟨⟨rfl, rfl, hmain, hlayout, hdot⟩, rfl, rfl⟩, rfl, ho⟩

theorem Attends.output (h : s.Attends t) {o : Output} (ho : o.discardsRoot = t.output.discardsRoot) :
    s.Attends { t with output := o } := h.change rfl rfl rfl ho t.events

theorem Attends.emit (h : s.Attends t) (events : List Event) : s.Attends { t with events } :=
  h.change rfl rfl rfl rfl events

/-- A block is closed without any effect on the control. -/
theorem closed_attends (s : State) : s.Attends s.closed := by
  unfold closed
  split
  · exact .refl s
  · split
    · exact (Attends.refl s).output rfl
    · refine (Attends.refl s).change ?_ ?_ ?_ ?_ s.events <;> rfl
  · exact (Attends.refl s).output rfl

end Render.State

theorem Deed.apply_steady (d : Deed) (s : State) : s.Steady (d.apply s) := by
  cases d with
  | closes => exact s.closed_attends.toSteady
  | _ => exact ⟨rfl, rfl, rfl, rfl, rfl⟩

theorem Stretch.enter_steady (b : Stretch) (s : State) : s.Steady (b.enter s) := by
  cases b <;> exact ⟨rfl, rfl, rfl, rfl, rfl⟩

theorem Stretch.leave_steady (b : Stretch) (s t : State) : t.Steady (b.leave s t) := by
  cases b <;> exact ⟨rfl, rfl, rfl, rfl, rfl⟩

theorem Path.steady {s t : State} {H : List Moment} (h : Path s H t) : s.Steady t := by
  induction h with
  | nil s => exact .refl s
  | quiet scopes events _ ih => exact ⟨ih.mainContent, ih.inLayout, ih.main, ih.layout, ih.dot⟩
  | @single s t H d _ _ ih => exact (d.apply_steady s).trans ih
  | @stretch s t u I H b _ _ _ ihI ih =>
    exact (b.enter_steady s).trans (ihI.trans ((b.leave_steady s t).trans ih))

/-- In every moment of a path there is the same main template or the same layout. -/
theorem Path.steady_moment {s t : State} {H : List Moment} (h : Path s H t) :
    ∀ m ∈ H, s.Steady m.state := by
  induction h with
  | nil s => simp
  | quiet scopes events _ ih =>
    exact fun m hm => ⟨(ih m hm).mainContent, (ih m hm).inLayout, (ih m hm).main, (ih m hm).layout,
      (ih m hm).dot⟩
  | @single s t H d _ _ ih =>
    refine List.forall_mem_cons.2 ⟨.refl s, fun m hm => ?_⟩
    exact (d.apply_steady s).trans (ih m hm)
  | @stretch s t u I H b _ hI _ ihI ih =>
    have hend : s.Steady t := (b.enter_steady s).trans hI.steady
    refine List.forall_mem_cons.2 ⟨.refl s, List.forall_mem_append.2 ⟨fun m hm => ?_, ?_⟩⟩
    · exact (b.enter_steady s).trans (ihI m hm)
    · refine List.forall_mem_cons.2 ⟨hend, fun m hm => ?_⟩
      exact hend.trans ((b.leave_steady s t).trans (ih m hm))

/-! ## The scopes and the output of the template around -/

namespace Run

variable {α : Type} {I : State → Prop} {Q : α → Prop}

theorem Keeps.final {act : Run α} (h : Keeps I act Q) {s : State} (hs : I s) : I (act.final s) := by
  have hact := h s hs
  unfold Run.final
  cases he : act s with
  | ok a t => rw [he] at hact; exact hact.1
  | error f t => rw [he] at hact; exact hact

theorem Keeps.of_final {act : Run α} (h : ∀ s, I s → I (act.final s)) :
    Keeps I act fun _ => True := by
  intro s hs
  have hact := h s hs
  unfold Run.final at hact
  cases he : act s with
  | ok a t => rw [he] at hact; exact ⟨hact, trivial⟩
  | error f t => rw [he] at hact; exact hact

theorem final_getState (k : State → Run α) (s : State) :
    Run.final ((get : Run State) >>= k) s = (k s).final s := rfl

theorem final_emit (ev : Event) (k : PUnit → Run α) (s : State) :
    Run.final (Run.emit ev >>= k) s = (k ⟨⟩).final { s with events := ev :: s.events } := rfl

/-- What is mended behind a computation does not depend on the computation. -/
theorem Keeps.mended {enter : State → State} {leave : State → State → State} (act : Run α)
    (h : ∀ s t, I s → I (leave s t)) : Keeps I (Run.guarded enter leave act) fun _ => True :=
  .of_final fun s hs => by
    rw [final_guarded]
    exact h s _ hs

end Run

namespace Render

variable {e : Environment} {room : Nat}

open Run

/-- The scopes and the output. -/
def State.Has (scopes : Scopes) (output : Output) (s : State) : Prop :=
  s.scopes = scopes ∧ s.output = output

variable {scopes : Scopes} {output : Output}

theorem execute_aside (run : Runner) (name : String) (dot : Value) :
    Keeps (State.Has scopes output) (execute e run name dot) fun _ => True := by
  refine .seq (.lift fun _ _ => trivial) fun t => .getState fun s _ => ?_
  split
  · exact .fail _
  · exact .located _ _ (.mended _ fun _ _ hs => hs)

theorem followParents_aside {exec : Runner}
    (hexec : ∀ name dot, Keeps (State.Has scopes output) (exec name dot) fun _ => True)
    (name : String) (n : Nat) : ∀ text,
    Keeps (State.Has scopes output) (followParents exec name n text) fun _ => True := by
  have htake : Keeps (State.Has scopes output) takeParent fun _ => True :=
    .of_final fun _ hs => hs
  induction n with
  | zero =>
    refine fun text => .seq htake fun parent => ?_
    cases parent with
    | none => exact .pure trivial
    | some _ => exact .fail _
  | succ n ih =>
    refine fun text => .seq htake fun parent => ?_
    cases parent with
    | none => exact .pure trivial
    | some parent =>
      refine .seq (.modifyState fun _ hs => hs) fun _ => .getState fun s _ => ?_
      exact .seq (hexec parent s.root) ih

variable (e room)

/-- A template that is run leaves the scopes and the output around it alone. -/
theorem runner_aside (name : String) (dot : Value) (s : State) :
    State.Has s.scopes s.output ((runner e room name dot).final s) := by
  refine Keeps.final (Q := fun _ => True) ?_ ⟨rfl, rfl⟩
  cases room with
  | zero => exact .fail _
  | succ room =>
    exact .guarded (fun _ hs => hs) (fun _ _ _ ht => ht)
      (.seq (execute_aside _ name dot) (followParents_aside (execute_aside _) name maxParents))

/-- **The template that runs another one goes on behind it.** -/
theorem runner_resumes (name : String) (dot : Value) (s : State) :
    s.Resumes ((runner e room name dot).final s) := by
  have hpath := History.follows_runner e room name dot s
  have hrun : (History.runner e room name dot).run = runner e room name dot :=
    congrFun (congrFun (History.run_runner e room) name) dot
  unfold Traced.FollowsAt at hpath
  rw [hrun] at hpath
  refine ⟨hpath.steady, hpath.depth_eq, ?_⟩
  cases room with
  | zero => rfl
  | succ room =>
    change (Run.final (guarded _ _ _) s).parent = s.parent
    rw [final_guarded]

theorem runner_attends (name : String) (dot : Value) (s : State) :
    s.Attends ((runner e room name dot).final s) := by
  obtain ⟨hscopes, houtput⟩ := runner_aside e room name dot s
  exact ⟨runner_resumes e room name dot s, hscopes, congrArg Output.discardsRoot houtput⟩

end Render

/-! ## Calls -/

theorem Output.discardsRoot_write (o : Output) (text : String) :
    (o.write text).discardsRoot = o.discardsRoot := by
  unfold Output.write
  split
  · rfl
  · split <;> rfl

namespace Eval

open Run

variable {e : Environment} {room : Nat} {context : HtmlContext} {s : State}

theorem write_attends (text : String) : Keeps s.Attends (Run.write text) fun _ => True :=
  .modifyState fun _ h => h.output (Output.discardsRoot_write _ _)

theorem emit_attends (ev : Event) : Keeps s.Attends (Run.emit ev) fun _ => True :=
  .modifyState fun _ h => h.emit _

theorem pushFrame_attends (f : Frame) : Keeps s.Attends (pushFrame f) fun _ => True :=
  .modifyState fun _ h => h.output rfl

theorem lift_attends {α : Type} (o : Outcome α) : Keeps s.Attends (Run.lift o) fun _ => True :=
  .lift fun _ _ => trivial

section Yield

variable {run : Runner} {I : State → Prop}
  (hrun : ∀ name dot, Keeps I (run name dot) fun _ => True)

include hrun

theorem keepsState_ranTemplate (template : String) (dot : Value) :
    Keeps I (ranTemplate run template dot) fun _ => True :=
  .seq (hrun template dot) fun _ => .pure trivial

theorem keepsState_yieldMain (data : Option Value) : Keeps I (yieldMain run data) fun _ => True := by
  refine .getState fun t _ => ?_
  split
  · exact .pure trivial
  · split
    · exact .fail _
    · exact keepsState_ranTemplate hrun _ _

variable (hemit : ∀ ev, Keeps I (Run.emit ev) fun _ => True)

include hemit

theorem keepsState_yieldSlot (slot : String) (data : Option Value) (fallback : Option String) :
    Keeps I (yieldSlot run context slot data fallback) fun _ => True := by
  refine .getState fun t _ => ?_
  dsimp only
  split
  · exact .seq (hemit _) fun _ => keepsState_ranTemplate hrun _ _
  · exact .seq (hemit _) fun _ => .seq (.lift fun _ _ => trivial) fun _ => .pure trivial
  · exact .seq (hemit _) fun _ => keepsState_ranTemplate hrun _ _
  · exact .pure trivial

/-- What yields does to the state is what the templates do that it runs, and the log. -/
theorem keepsState_yieldContent (args : List Value) :
    Keeps I (yieldContent run context args) fun _ => True := by
  unfold yieldContent
  split
  · exact .seq (.lift fun _ _ => trivial) fun _ => keepsState_yieldSlot hrun hemit _ _ _
  · exact .seq (.lift fun _ _ => trivial) fun _ => keepsState_yieldMain hrun _

end Yield

theorem run_attends (name : String) (dot : Value) :
    Keeps s.Attends (runner e room name dot) fun _ => True :=
  .of_final fun t h => h.trans (runner_attends e room name dot t)

theorem openBlock_attends (slot : String) :
    Keeps s.Attends (openBlock (runner e room) context slot) fun _ => True := by
  refine .getState fun t _ => ?_
  split
  · exact pushFrame_attends _
  · split
    · exact .seq (emit_attends _) fun _ => .seq (run_attends _ _) fun text =>
        .seq (write_attends text) fun _ => pushFrame_attends _
    · exact .seq (emit_attends _) fun _ => .seq (lift_attends _) fun text =>
        .seq (write_attends text) fun _ => pushFrame_attends _
    · exact pushFrame_attends _

theorem closeBlock_attends : Keeps s.Attends closeBlock fun _ => True := by
  refine .of_final fun t h => ?_
  obtain ⟨events, he⟩ := History.final_closeBlock t
  rw [he]
  exact (h.trans t.closed_attends).emit events

/-- **Only the call that extends a template changes the control.** -/
theorem compose_attends (e : Environment) (room : Nat) (context : HtmlContext) {c : Composition}
    (hc : c ≠ .extend) (args : List Value) :
    Keeps s.Attends (compose (runner e room) context c args) fun _ => True := by
  cases c with
  | yield => exact keepsState_yieldContent run_attends emit_attends args
  | contentFor =>
    unfold compose
    dsimp only
    split
    · refine .seq (emit_attends _) fun _ => .seq (.modifyState fun _ h => ?_) fun _ => .pure trivial
      refine h.change ?_ ?_ ?_ ?_ _ <;> rfl
    · exact .fail _
  | block =>
    exact .seq (lift_attends _) fun _ => .seq (openBlock_attends _) fun _ => .pure trivial
  | defineBlock =>
    exact .seq (lift_attends _) fun _ => .seq (pushFrame_attends _) fun _ => .pure trivial
  | endBlock => exact .seq closeBlock_attends fun _ => .pure trivial
  | extend => exact absurd rfl hc
  | exec =>
    exact .seq (lift_attends _) fun _ => .getState fun t _ => keepsState_ranTemplate run_attends _ _
  | rootDot => exact .getState fun t _ => .pure trivial
  | fallback => exact .seq (lift_attends _) fun _ => .pure trivial

/-- Whoever runs a template for its text alone finds the output as it was. -/
theorem output_compose {c : Composition} (hc : c = .yield ∨ c = .exec) (args : List Value)
    (s : State) : ((compose (runner e room) context c args).final s).output = s.output := by
  have hrun (name : String) (dot : Value) :
      Keeps (State.Has s.scopes s.output) (runner e room name dot) fun _ => True := by
    refine .of_final fun t ⟨hscopes, houtput⟩ => ?_
    rw [← hscopes, ← houtput]
    exact runner_aside e room name dot t
  have hemit (ev : Event) : Keeps (State.Has s.scopes s.output) (Run.emit ev) fun _ => True :=
    .modifyState fun _ h => h
  have hkeeps : Keeps (State.Has s.scopes s.output) (compose (runner e room) context c args)
      fun _ => True := by
    obtain rfl | rfl := hc
    · exact keepsState_yieldContent hrun hemit args
    · exact .seq (.lift fun _ _ => trivial) fun _ => .getState fun t _ =>
        keepsState_ranTemplate hrun _ _
  exact (hkeeps.final ⟨rfl, rfl⟩).2

end Eval

/-! ## Blocks -/

namespace Output

/-- A text is written and blocks are opened behind it. -/
def opened (o : Output) (text : String) (frames : List Frame) : Output :=
  { o.write text with frames := frames ++ (o.write text).frames }

theorem writeFrames_empty (fs : List Frame) : ∀ fs', writeFrames "" fs = some fs' → fs' = fs := by
  induction fs with
  | nil => exact fun _ h => nomatch h
  | cons f fs ih =>
    intro fs' h
    cases f with
    | capture slot kind text =>
      rw [writeFrames, String.append_empty] at h
      exact (Option.some.inj h).symm
    | discard => exact (Option.some.inj h).symm
    | through =>
      obtain ⟨gs, hgs, rfl⟩ := Option.map_eq_some_iff.1 h
      rw [ih gs hgs]

theorem write_empty (o : Output) : o.write "" = o := by
  unfold write
  split
  · next frames h => rw [writeFrames_empty _ _ h]
  · rw [String.append_empty]
    split <;> rfl

theorem opened_empty (o : Output) (frames : List Frame) :
    o.opened "" frames = { o with frames := frames ++ o.frames } := by
  rw [opened, write_empty]

end Output

namespace Eval

open Run

variable {e : Environment} {room : Nat} {context : HtmlContext}

/-- A text is written for the block, if anything, and a frame is opened that catches nothing unless
blocks are captured. -/
def Opens (s t : State) : Prop :=
  ∃ text frames, t.output = s.output.opened text frames ∧
    ∀ slot kind content, .capture slot kind content ∈ frames → s.isCapturing = true

theorem Opens.of_eq {s t : State} (h : t.output = s.output) : Opens s t :=
  ⟨"", [], by rw [h, Output.opened_empty, List.nil_append], by simp⟩

theorem Opens.discard {s t : State} (text : String)
    (h : t.output = (s.output.write text).push .discard) : Opens s t :=
  ⟨text, [.discard], h, by simp⟩

theorem opens_openBlock (e : Environment) (room : Nat) (context : HtmlContext) (slot : String)
    (s : State) :
    Opens s ((openBlock (runner e room) context slot).final s) := by
  rw [openBlock, final_getState]
  split
  · next hcapturing =>
    refine ⟨"", [.capture slot (.ofContext context) ""], ?_, fun _ _ _ _ => hcapturing⟩
    rw [Output.opened_empty]
    rfl
  · split
    · next template _ =>
      rw [final_emit, final_bind]
      have haside := (runner_aside e room template s.root
        { s with events := .blockTemplate slot template :: s.events }).2
      cases hrun : runner e room template s.root
          { s with events := .blockTemplate slot template :: s.events } with
      | ok text t =>
        rw [final_of_ok hrun] at haside
        exact .discard text (congrArg (fun o => (o.write text).push .discard) haside)
      | error f t =>
        rw [final_of_error hrun] at haside
        exact .of_eq haside
    · next b _ _ =>
      rw [final_emit]
      cases blockContent slot b context with
      | ok text => exact .discard text rfl
      | error c => exact .of_eq rfl
    · refine ⟨"", [.through], ?_, by simp⟩
      rw [Output.opened_empty]
      rfl

theorem opens_block (args : List Value) (s : State) :
    Opens s ((compose (runner e room) context .block args).final s) := by
  change Opens s (Run.final (Run.lift (stringArg .block .slot args) >>= fun slot =>
    openBlock (runner e room) context slot >>= fun _ => pure nothing) s)
  cases stringArg .block .slot args with
  | error c => exact .of_eq rfl
  | ok slot =>
    have hopens := opens_openBlock e room context slot s
    change Opens s (Run.final (openBlock (runner e room) context slot >>= fun _ => pure nothing) s)
    rw [final_bind]
    cases ho : openBlock (runner e room) context slot s with
    | ok _ t =>
      rw [final_of_ok ho] at hopens
      exact hopens
    | error f t =>
      rw [final_of_error ho] at hopens
      exact hopens

/-! ## Nodes that run a template -/

/-- The data with which a node runs a template. -/
def templateData (e : Environment) (run : Runner) (t : Template) (line : Nat) :
    Option Pipeline → Run Value
  | some p => Run.located t.name line (pipeline e run .body p)
  | none => pure .undefined

/-- Behind its data a node that runs a template only writes the text of the template. -/
theorem templateNode_attends (t : Template) (line : Nat) (name : String) (p : Option Pipeline)
    (s : State) :
    ((templateData e (runner e room) t line p).final s).Attends
        ((node e (runner e room) t (.template line name p)).final s) ∧
      ∃ text, ((node e (runner e room) t (.template line name p)).final s).output =
        ((templateData e (runner e room) t line p).final s).output.write text := by
  have hnode : node e (runner e room) t (.template line name p) =
      templateData e (runner e room) t line p >>= fun dot =>
        Run.located t.name line (runner e room name dot) >>= Run.write := by
    cases p <;> rw [node] <;> rfl
  rw [hnode, final_bind]
  cases hdata : templateData e (runner e room) t line p s with
  | error f u =>
    rw [final_of_error hdata]
    exact ⟨.refl u, "", (Output.write_empty _).symm⟩
  | ok dot u =>
    rw [final_of_ok hdata]
    have hattends := runner_attends e room name dot u
    have haside := (runner_aside e room name dot u).2
    rw [← final_located t.name line] at hattends haside
    dsimp only
    rw [final_bind]
    cases hrun : Run.located t.name line (runner e room name dot) u with
    | ok text v =>
      rw [final_of_ok hrun] at hattends haside
      exact ⟨(write_attends text).final hattends, text, congrArg (Output.write · text) haside⟩
    | error f v =>
      rw [final_of_error hrun] at hattends haside
      exact ⟨hattends, "", by rw [Output.write_empty]; exact haside⟩

end Eval

/-! ## The depth -/

namespace History

/-- How many executions of templates have begun. -/
def begun (H : List Moment) : Nat := H.countP (·.deed.beginsTemplate)

/-- How many executions of templates have ended. -/
def ended (H : List Moment) : Nat := H.countP (·.deed.endsTemplate)

theorem begun_append (H H' : List Moment) : begun (H ++ H') = begun H + begun H' :=
  List.countP_append

theorem ended_append (H H' : List Moment) : ended (H ++ H') = ended H + ended H' :=
  List.countP_append

/-- The depth is the number of templates that are running, and within the limit. -/
def Counted (past : List Moment) (s : State) : Prop :=
  begun past = ended past + s.depth ∧ s.depth ≤ maxDepth

theorem invariant_counted : Path.Invariant Counted where
  quiet _ _ _ _ h := h
  single past s d hd h := by
    have hbegun : begun [⟨d, s⟩] = 0 := by cases d <;> first | rfl | cases hd
    have hended : ended [⟨d, s⟩] = 0 := by cases d <;> first | rfl | cases hd
    unfold Counted
    rw [begun_append, ended_append, hbegun, hended, d.depth_apply]
    exact h
  enter past s b I hallows h := by
    have hbegun : begun [⟨.begins b, s⟩] = b.rise := by cases b <;> rfl
    have hended : ended [⟨.begins b, s⟩] = 0 := rfl
    have hroom : s.depth + b.rise ≤ maxDepth := by
      cases b with
      | template name dot => exact hallows
      | node n => exact h.2
      | chain name => exact h.2
    unfold Counted at h ⊢
    rw [begun_append, ended_append, hbegun, hended, b.depth_enter]
    omega
  leave past s b I t hI h ht := by
    have hbegun : begun [⟨.ends b, t⟩] = 0 := rfl
    have hended : ended [⟨.ends b, t⟩] = b.rise := by cases b <;> rfl
    have hdepth := hI.depth_eq
    rw [b.depth_enter] at hdepth
    unfold Counted at h ht ⊢
    rw [← List.cons_append, ← List.append_assoc, begun_append, ended_append, hbegun, hended,
      b.depth_leave]
    omega

end History

namespace Environment

/-- **The depth counts the templates that are running**, and never exceeds the limit. -/
theorem history_depth (e : Environment) (c : RenderContext) :
    Along History.Counted [] (e.history c) := by
  obtain ⟨H, H', t, t', mainContent, inLayout, hhistory, hH, hH'⟩ := e.history_paths c
  obtain ⟨halong, ht⟩ := History.invariant_counted.along hH [] ⟨rfl, Nat.zero_le _⟩
  rw [hhistory]
  exact halong.append (History.invariant_counted.along hH' _ ht).1

/-- **A template that is run gives the control back**, with success or with a fault. The depth counts
the templates that are running. No call but the one that extends a template has an effect on what the
running template extends, on whether its blocks are captured or on whether its text is dropped: a
template that is run for its text leaves the output alone, a block writes a text and opens a frame,
which catches text only if blocks are captured, and a node that runs a template writes its text. -/
theorem control_restored (e : Environment) :
    (∀ room name dot (s : State), s.Resumes ((runner e room name dot).final s) ∧
      State.Has s.scopes s.output ((runner e room name dot).final s)) ∧
    (History.renderMain e).run = renderMain e ∧
    (∀ c before m after, e.history c = before ++ m :: after →
      History.begun before = History.ended before + m.state.depth ∧ m.state.depth ≤ maxDepth) ∧
    (∀ room context c args (s : State), c ≠ .extend →
      s.Attends ((Eval.compose (runner e room) context c args).final s) ∧
      ((Eval.compose (runner e room) context c args).final s).isCapturing = s.isCapturing) ∧
    (∀ room context c args (s : State), c = .yield ∨ c = .exec →
      ((Eval.compose (runner e room) context c args).final s).output = s.output) ∧
    (∀ room context args (s : State),
      Eval.Opens s ((Eval.compose (runner e room) context .block args).final s)) ∧
    (∀ room t line name p (s : State),
      let u := (Eval.templateData e (runner e room) t line p).final s
      let v := (Eval.node e (runner e room) t (.template line name p)).final s
      u.Attends v ∧ v.isCapturing = u.isCapturing ∧ ∃ text, v.output = u.output.write text) := by
  refine ⟨fun room name dot s => ⟨runner_resumes e room name dot s, runner_aside e room name dot s⟩,
    History.run_renderMain e, fun c before m after h => ?_, fun room context c args s hc => ?_,
    fun room context c args s hc => Eval.output_compose hc args s,
    fun room context args s => Eval.opens_block args s, fun room t line name p s => ?_⟩
  · exact e.history_depth c before m after h
  · have h := (Eval.compose_attends e room context hc args).final (.refl s)
    exact ⟨h, h.isCapturing⟩
  · obtain ⟨hattends, houtput⟩ := Eval.templateNode_attends t line name p s
    exact ⟨hattends, hattends.isCapturing, houtput⟩

/-- A page that runs a part, which extends another template. -/
def nestedPages : Environment where
  templates := [
    ("base", { name := "base", nodes := [.text "b"] }),
    ("page", { name := "page", nodes := [
      .action 1 .body { commands := [[.call "exec", .const (.text "part")]] }, .text "p"] }),
    ("part", { name := "part", nodes := [
      .action 1 .body { commands := [[.call "extends", .const (.text "base")]] }, .text "x"] })]

/-- In place of the part its base is written: two templates are running when its text is reached, of
three that have begun. The page goes on behind them and writes its own text. -/
theorem control_restored_nestedPages :
    (∃ before m after, nestedPages.history { main := some "page" } = before ++ m :: after ∧
      m.deed = .writes "b" ∧ History.begun before = 3 ∧ History.ended before = 1 ∧
      m.state.depth = 2 ∧ History.begun before = History.ended before + m.state.depth) ∧
    (∀ s : State, s.Attends ((Eval.compose (runner nestedPages 1) .body .exec
      [.text "part"]).final s)) ∧
    (∀ s : State, ((Eval.compose (runner nestedPages 1) .body .exec [.text "part"]).final s).output =
      s.output) ∧
    (nestedPages.render { main := some "page" }).1 = .ok "bp" := by
  have h := nestedPages.control_restored
  obtain ⟨m, hsplit, hdeed, hdepth⟩ : ∃ m, nestedPages.history { main := some "page" } =
      (nestedPages.history { main := some "page" }).take 16 ++
        m :: (nestedPages.history { main := some "page" }).drop 17 ∧
      m.deed = .writes "b" ∧ m.state.depth = 2 := ⟨_, rfl, rfl, rfl⟩
  refine ⟨⟨_, m, _, hsplit, hdeed, rfl, rfl, hdepth, ?_⟩, fun s => ?_, fun s => ?_, rfl⟩
  · exact (h.2.2.1 { main := some "page" } _ m _ hsplit).1
  · exact (h.2.2.2.1 1 .body .exec [.text "part"] s nofun).1
  · exact h.2.2.2.2.1 1 .body .exec [.text "part"] s (.inr rfl)

end Environment

end Stencil
