import Stencil.Proofs.Render.Control
import Stencil.Proofs.Render.Replay

/-!
# Which blocks are captured

Whether a block is captured depends on two parts of the state. What they stand for can be told from the
history of the rendering.

* `History.Extended` says that the running template has called `extends`; `History.invariant_extended`
  says that its text is dropped exactly then.
* `Environment.history_parent` says that inside of a template there is a parent exactly if the text is
  dropped, so that no template captures because of what another one extends.
* `RenderContext.LayoutPending` says that there is a layout and the main template has not ended.
* `Environment.history_isCapturing` says that blocks are captured in a template that has called
  `extends`, and in every template while a layout is pending; `Environment.block_captured_iff` says what
  the calls of a rendering do that open a block.
-/

namespace Stencil

open Render

/-! ## Templates that have called `extends` -/

/-- Whether the deed is a call of `extends`. -/
def Deed.isInherits : Deed → Bool
  | .inherits _ => true
  | _ => false

namespace History

/-- The template that runs at this depth has called `extends`: it has run since then. -/
def Extended (past : List Moment) (depth : Nat) : Prop :=
  ∃ earlier template s since, past = earlier ++ ⟨.inherits template, s⟩ :: since ∧
    s.depth = depth ∧ ∀ m ∈ since, depth ≤ m.state.depth

variable {past H : List Moment} {depth : Nat} {s : State}

/-- Moments in which this template does not call `extends` and does not end change nothing. -/
theorem extended_append_iff (hdepth : ∀ m ∈ H, depth ≤ m.state.depth)
    (hdeed : ∀ m ∈ H, m.state.depth = depth → ∀ template, m.deed ≠ .inherits template) :
    Extended (past ++ H) depth ↔ Extended past depth := by
  constructor
  · rintro ⟨earlier, template, s, since, heq, hs, hsince⟩
    have hnot : ⟨.inherits template, s⟩ ∉ H := fun hm => hdeed _ hm hs template rfl
    rcases List.append_eq_append_iff.1 heq with ⟨between, rfl, rfl⟩ | ⟨between, rfl, hbetween⟩
    · simp at hnot
    · cases between with
      | nil =>
        rw [List.nil_append] at hbetween
        simp [← hbetween] at hnot
      | cons m between =>
        obtain ⟨rfl, rfl⟩ := List.cons.inj hbetween
        exact ⟨earlier, template, s, between, rfl, hs, fun m hm => hsince m (by simp [hm])⟩
  · rintro ⟨earlier, template, s, since, rfl, hs, hsince⟩
    refine ⟨earlier, template, s, since ++ H, by simp, hs, fun m hm => ?_⟩
    rcases List.mem_append.1 hm with hm | hm
    · exact hsince m hm
    · exact hdepth m hm

/-- A template that has just begun has called nothing. -/
theorem not_extended_of_lt {m : Moment} (hm : m.state.depth < depth) :
    ¬ Extended (past ++ [m]) depth := by
  rintro ⟨earlier, template, s, since, heq, hs, hsince⟩
  obtain rfl | ⟨since, last, rfl⟩ := List.eq_nil_or_concat since
  · obtain ⟨-, hlast⟩ := List.append_inj' heq rfl
    obtain rfl := (List.cons.inj hlast).1
    exact Nat.ne_of_lt hm hs
  · rw [List.concat_eq_append, ← List.cons_append, ← List.append_assoc] at heq
    obtain ⟨-, hlast⟩ := List.append_inj' heq rfl
    obtain rfl := (List.cons.inj hlast).1
    have := hsince m (by simp)
    omega

theorem not_extended_of_all (h : past.all (!·.deed.isInherits) = true) :
    ¬ Extended past depth := by
  rintro ⟨earlier, template, s, since, rfl, -, -⟩
  simp [Deed.isInherits] at h

theorem extended_inherits (template : String) :
    Extended (past ++ [⟨.inherits template, s⟩]) s.depth :=
  ⟨past, template, s, [], rfl, rfl, by simp⟩

/-- **The text of a template is dropped exactly if it has called `extends`.** -/
theorem invariant_extended :
    Path.Invariant fun past s => s.output.discardsRoot = true ↔ Extended past s.depth where
  quiet _ _ _ _ h := h
  single past s d hd h := by
    rw [d.depth_apply]
    by_cases hinherits : ∃ template, d = .inherits template
    · obtain ⟨template, rfl⟩ := hinherits
      exact iff_of_true rfl (extended_inherits template)
    · have hd' : ∀ template, d ≠ .inherits template := fun template hn => hinherits ⟨template, hn⟩
      have hroot : (d.apply s).output.discardsRoot = s.output.discardsRoot := by
        cases d with
        | writes text => exact Output.discardsRoot_write _ _
        | closes => exact s.closed_attends.discardsRoot
        | inherits template => exact absurd rfl (hd' template)
        | _ => rfl
      rw [hroot, h, extended_append_iff (by simp) (by simpa using hd')]
  enter past s b I _ h := by
    have hmark : Extended (past ++ [⟨.begins b, s⟩]) s.depth ↔ Extended past s.depth :=
      extended_append_iff (by simp) (by simp)
    cases b with
    | template name dot =>
      refine iff_of_false (fun hroot => nomatch hroot) ?_
      exact not_extended_of_lt (Nat.lt_succ_self s.depth)
    | node n => exact h.trans hmark.symm
    | chain name => exact h.trans hmark.symm
  leave past s b I t hI h ht := by
    have hmark : Extended (past ++ ⟨.begins b, s⟩ :: (I ++ [⟨.ends b, t⟩])) t.depth ↔
        Extended (past ++ ⟨.begins b, s⟩ :: I) t.depth := by
      rw [← List.cons_append, ← List.append_assoc]
      exact extended_append_iff (by simp) (by simp)
    cases b with
    | node n => exact ht.trans hmark.symm
    | chain name => exact ht.trans hmark.symm
    | template name dot =>
      -- all that has happened since the template began was deeper
      have hend : t.depth = s.depth + 1 := hI.depth_eq
      have hdeeper : ∀ m ∈ I, s.depth + 1 ≤ m.state.depth := hI.depth_le
      have hdepth : ((Stretch.template name dot).leave s t).depth = s.depth := by
        rw [Stretch.depth_leave, hend]
        rfl
      rw [hdepth]
      refine h.trans (extended_append_iff ?_ ?_).symm
      · simp only [List.mem_cons, List.mem_append, List.not_mem_nil, or_false]
        rintro m (rfl | hm | rfl)
        · exact Nat.le_refl _
        · exact Nat.le_of_succ_le (hdeeper m hm)
        · exact hend ▸ Nat.le_succ _
      · simp only [List.mem_cons, List.mem_append, List.not_mem_nil, or_false]
        rintro m (rfl | hm | rfl) hdepth template hdeed
        · cases hdeed
        · have := hdeeper m hm
          omega
        · cases hdeed

end History

theorem Environment.history_extended (e : Environment) (c : RenderContext) :
    Along (fun past s => s.output.discardsRoot = true ↔ History.Extended past s.depth) []
      (e.history c) := by
  obtain ⟨H, H', t, t', mainContent, inLayout, hhistory, hH, hH'⟩ := e.history_paths c
  have hstart : ¬ History.Extended [] 0 := by
    rintro ⟨earlier, template, s, since, heq, -, -⟩
    simp at heq
  obtain ⟨halong, ht⟩ := History.invariant_extended.along hH []
    (iff_of_false (fun hroot => nomatch hroot) hstart)
  rw [hhistory]
  exact halong.append (History.invariant_extended.along hH' _ ht).1

/-! ## The parent of the running template -/

/-- Whether a deed is done in a template, and not on the way from one template to the next one. -/
def Deed.isInside : Deed → Bool
  | .begins (.template ..) | .ends (.chain _) | .takes => false
  | _ => true

/-- The parent is the one of the running template: it is there exactly if the text is dropped. -/
def Render.State.OwnsParent (s : State) : Prop := s.parent.isSome = s.output.discardsRoot

namespace Render.State

variable {s t : State}

theorem Attends.ownsParent (h : s.Attends t) (hs : s.OwnsParent) : t.OwnsParent := by
  unfold OwnsParent
  rw [h.parent, h.discardsRoot]
  exact hs

theorem OwnsParent.apply (h : s.OwnsParent) {d : Deed} (hd : d ≠ .takes) : (d.apply s).OwnsParent := by
  cases d with
  | takes => exact absurd rfl hd
  | inherits template => exact rfl
  | writes text => exact h.trans (Output.discardsRoot_write _ _).symm
  | closes => exact s.closed_attends.ownsParent h
  | _ => exact h

end Render.State

namespace History

variable {α β : Type} {e : Environment} {I J : State → Prop}

/-- From a state in `I` on, the running template owns the parent in all moments inside of templates. -/
def Owns (I : State → Prop) (act : Traced Moment α) : Prop :=
  ∀ s, I s → ∀ m ∈ (act s).2, m.deed.isInside = true → m.state.OwnsParent

namespace Owns

theorem quiet (act : Run α) : Owns I (Traced.quiet act : Traced Moment α) := fun _ _ => by
  simp [Traced.quiet]

theorem bind {act : Traced Moment α} {k : α → Traced Moment β} (h : Owns I act)
    (hact : ∀ s, I s → J (act.run.final s)) (hk : ∀ a, Owns J (k a)) : Owns I (act >>= k) := by
  intro s hs
  rw [Traced.trail_bind]
  refine List.forall_mem_append.2 ⟨h s hs, ?_⟩
  cases he : act.run s with
  | error f t => simp
  | ok a t => exact hk a t (Run.final_of_ok he ▸ hact s hs)

end Owns

/-- The computation keeps a parent that the running template owns, and so do its moments. -/
def KeepsParent (act : Traced Moment α) : Prop :=
  Owns State.OwnsParent act ∧ ∀ s, s.OwnsParent → (act.run.final s).OwnsParent

theorem composable_keepsParent {run : Teller} (hrun : ∀ name dot, KeepsParent (run name dot))
    (t : Template) : Traced.Composable e run t fun _ act => KeepsParent act where
  ran := hrun
  quiet {α act} h _ := ⟨.quiet act, fun s hs => by
    obtain ⟨scopes, events, he⟩ := h s
    change (act.final s).OwnsParent
    rw [he]
    exact hs⟩
  bind {α β act k} h hk := ⟨h.1.bind h.2 fun a => (hk a).1, fun s hs => by
    have hfinal := h.2 s hs
    rw [Traced.final_bind]
    cases he : act.run s with
    | ok a t => exact (hk a).2 t (Run.final_of_ok he ▸ hfinal)
    | error f t => exact Run.final_of_error he ▸ hfinal⟩
  noted {d act} _ htakes h _ := ⟨fun s hs => by simpa [note, Traced.noted] using fun _ => hs,
    fun s hs => by
      obtain ⟨scopes, events, he⟩ := h s
      change (act.final s).OwnsParent
      rw [he]
      exact hs.apply htakes⟩
  inScope {α act} enter h := ⟨fun s hs => h.1 _ hs, fun s hs => by
    change ((Run.guarded _ _ act.run).final s).OwnsParent
    rw [Run.final_guarded]
    exact h.2 _ hs⟩
  located {α act} template line h := ⟨h.1, fun s hs => by
    change ((Run.located template line act.run).final s).OwnsParent
    rw [Run.final_located]
    exact h.2 s hs⟩
  stretch {act} n _ h := by
    refine ⟨fun s hs => ?_, fun s hs => ?_⟩
    · refine List.forall_mem_cons.2 ⟨fun _ => hs, List.forall_mem_append.2 ⟨h.1 s hs, ?_⟩⟩
      exact List.forall_mem_singleton.2 fun _ => h.2 s hs
    · change ((Run.guarded _ _ act.run).final s).OwnsParent
      rw [Run.final_guarded]
      exact h.2 s hs

/-! ## Templates -/

/-- A template begins without a parent, and what is written is not dropped. -/
theorem owns_execute {run : Teller} (hrun : ∀ name dot, KeepsParent (run name dot)) (name : String)
    (dot : Value) : Owns (fun s => s.parent = none) (execute e run name dot) := by
  refine .bind (.quiet _) (J := fun s => s.parent = none) (fun s hs => ?_) fun t => ?_
  · obtain ⟨scopes, events, he⟩ := Run.Local.lift (e.template name) s
    change (Run.final (Run.lift (e.template name)) s).parent = none
    rw [he]
    exact hs
  · intro s hs
    rw [Traced.trail_get]
    split
    · exact Owns.quiet (I := fun s => s.parent = none) _ s hs
    · have hparts : Traced.Composable e run t fun _ act => KeepsParent act :=
        composable_keepsParent hrun t
      have hinside : KeepsParent (nodes e run t t.nodes >>= fun _ => Traced.quiet finished) :=
        hparts.bind (hparts.nodes t.nodes) fun _ => hparts.quiet local_finished bare_finished
      have henter : ((Stretch.template name dot).enter s).OwnsParent :=
        congrArg Option.isSome hs
      refine List.forall_mem_cons.2 ⟨(fun h => nomatch h), List.forall_mem_append.2
        ⟨hinside.1 _ henter, ?_⟩⟩
      exact List.forall_mem_singleton.2 fun _ => hinside.2 _ henter

/-- The parent is taken before the next template of a chain begins. -/
theorem owns_followParents {exec : Teller}
    (hexec : ∀ name dot, Owns (fun s => s.parent = none) (exec name dot)) (name : String) (n : Nat) :
    ∀ output, Owns (fun _ => True) (followParents exec name n output) := by
  have htake : Owns (fun _ => True) (note .takes takeParent) := fun s _ => by
    simp [note, Traced.noted, Deed.isInside]
  have hnone : ∀ s : State, True → ((note .takes takeParent).run.final s).parent = none :=
    fun _ _ => rfl
  induction n with
  | zero =>
    refine fun output => htake.bind (J := fun s => s.parent = none) hnone fun parent => ?_
    cases parent with
    | none => exact .quiet _
    | some _ => exact .quiet _
  | succ n ih =>
    refine fun output => htake.bind (J := fun s => s.parent = none) hnone fun parent => ?_
    cases parent with
    | none => exact .quiet _
    | some parent =>
      refine .bind (.quiet _) (J := fun s => s.parent = none) (fun s hs => hs) fun _ => ?_
      refine .bind (.quiet _) (J := fun s => s.parent = none) (fun s hs => hs) fun s => ?_
      exact .bind (hexec parent s.root) (fun _ _ => trivial) ih

/-- **A template that is run gives the parent back**, and no template inside of it has another's. -/
theorem keepsParent_runner (e : Environment) (room : Nat) :
    ∀ name dot, KeepsParent (runner e room name dot) := by
  have hfinal (room : Nat) (name : String) (dot : Value) (s : State) (hs : s.OwnsParent) :
      ((runner e room name dot).run.final s).OwnsParent := by
    have hrun : (runner e room name dot).run = Render.runner e room name dot :=
      congrFun (congrFun (run_runner e room) name) dot
    rw [hrun]
    exact (Render.runner_attends e room name dot s).ownsParent hs
  induction room with
  | zero => exact fun name dot => ⟨.quiet _, hfinal 0 name dot⟩
  | succ room ih =>
    refine fun name dot => ⟨fun s hs => ?_, hfinal (room + 1) name dot⟩
    have hchain : Owns (fun s => s.parent = none)
        (execute e (runner e room) name dot >>=
          followParents (execute e (runner e room)) name maxParents) :=
      (owns_execute ih name dot).bind (fun _ _ => trivial)
        (owns_followParents (owns_execute ih) name maxParents)
    refine List.forall_mem_cons.2 ⟨fun _ => hs, List.forall_mem_append.2 ⟨hchain _ rfl, ?_⟩⟩
    exact List.forall_mem_singleton.2 fun h => nomatch h

end History

/-- **No template has the parent of another one.** -/
theorem Environment.history_parent (e : Environment) (c : RenderContext) :
    ∀ m ∈ e.history c, m.deed.isInside = true → m.state.OwnsParent := by
  have hrun := History.keepsParent_runner e (maxDepth + 1)
  have hmain : History.Owns State.OwnsParent (History.renderMain e) := by
    refine .bind (.quiet _) (J := State.OwnsParent) (fun _ hs => hs) fun s => ?_
    cases s.context.main with
    | none => exact .quiet _
    | some main =>
      refine .bind (.quiet _) (J := State.OwnsParent) (fun _ hs => hs) fun _ => ?_
      cases s.context.layout with
      | none => exact (hrun _ _).1
      | some layout =>
        refine (hrun _ _).1.bind (hrun _ _).2 fun _ => ?_
        exact .bind (.quiet _) (J := State.OwnsParent) (fun _ hs => hs) fun _ => (hrun _ _).1
  exact hmain _ rfl

/-! ## The layout -/

/-- There is a layout, and it is still to come: the main template has not ended, nor have the ones
that it extends. -/
def RenderContext.LayoutPending (c : RenderContext) (past : List Moment) : Prop :=
  c.layout.isSome = true ∧
    ∀ m ∈ past, m.state.depth = 0 → ∀ name, m.deed ≠ .ends (.chain name)

/-- Whether the deed is the end of a chain. -/
def Deed.endsChain : Deed → Bool
  | .ends (.chain _) => true
  | _ => false

theorem layoutPending_of_all {c : RenderContext} {past : List Moment} (hc : c.layout.isSome = true)
    (h : past.all (!·.deed.endsChain) = true) : c.LayoutPending past := by
  refine ⟨hc, fun m hm _ name hdeed => ?_⟩
  have hnot := List.all_eq_true.1 h m hm
  rw [hdeed] at hnot
  cases hnot

/-- What the state says about the layout, told from the moments before it. -/
def History.Heads (c : RenderContext) (past : List Moment) (s : State) : Prop :=
  s.context.layout = c.layout ∧
    (s.inLayout = true ↔ ∃ m ∈ past, m.state.depth = 0 ∧ ∃ name, m.deed = .ends (.chain name))

namespace Environment

variable {e : Environment} {c : RenderContext}

/-- The main template ends only with its last moment. -/
theorem heads_main (main : String) (dot : Value) {s : State} (hdepth : s.depth = 0)
    (hlayout : s.context.layout = c.layout) (hs : s.inLayout = false) :
    Along (History.Heads c) [] (History.runner e (maxDepth + 1) main dot s).2 := by
  have hsteady := (History.follows_runner e (maxDepth + 1) main dot s).steady_moment
  obtain ⟨I, t, htrail, hchained, -⟩ := History.trail_runner e maxDepth main dot s
  rw [htrail] at hsteady ⊢
  intro before m after heq
  have hm := hsteady m (by simp [heq])
  refine ⟨hm.layout.trans hlayout, iff_of_false (by simp [hm.inLayout, hs]) ?_⟩
  rintro ⟨m', hm', hdepth', name, hdeed⟩
  have hmem : m' ∈ ⟨.begins (.chain main), s⟩ :: I := by
    rw [← List.cons_append] at heq
    obtain rfl | ⟨after, last, rfl⟩ := List.eq_nil_or_concat after
    · exact (List.append_inj' heq rfl).1 ▸ hm'
    · rw [List.concat_eq_append, ← List.cons_append, ← List.append_assoc] at heq
      rw [(List.append_inj' heq rfl).1]
      exact List.mem_append_left _ hm'
  rcases List.mem_cons.1 hmem with rfl | hmem
  · cases hdeed
  · rcases hchained.deeds m' hmem (hdepth'.trans hdepth.symm) with htakes | hbegins
    · rw [htakes] at hdeed
      cases hdeed
    · rw [hdeed] at hbegins
      cases hbegins

/-- The main template has ended when the layout begins. -/
theorem heads_layout (layout : String) (dot : Value) {H : List Moment} {s : State}
    (hends : ∃ m ∈ H, m.state.depth = 0 ∧ ∃ name, m.deed = .ends (.chain name))
    (hlayout : s.context.layout = c.layout) (hs : s.inLayout = true) :
    Along (History.Heads c) H (History.runner e (maxDepth + 1) layout dot s).2 := by
  have hsteady := (History.follows_runner e (maxDepth + 1) layout dot s).steady_moment
  intro before m after heq
  have hm := hsteady m (by simp [heq])
  obtain ⟨m', hm', hends⟩ := hends
  exact ⟨hm.layout.trans hlayout, iff_of_true (hm.inLayout.trans hs)
    ⟨m', List.mem_append_left _ hm', hends⟩⟩

theorem exists_ends_runner (e : Environment) (room : Nat) (name : String) (dot : Value) {s : State}
    (hdepth : s.depth = 0) : ∃ m ∈ (History.runner e (room + 1) name dot s).2,
      m.state.depth = 0 ∧ ∃ name, m.deed = .ends (.chain name) := by
  obtain ⟨I, t, htrail, -, ht⟩ := History.trail_runner e room name dot s
  exact ⟨⟨.ends (.chain name), t⟩, by simp [htrail], ht.trans hdepth, name, rfl⟩

theorem heads_framed (main layout : String) (dot : Value) {s : State} (hdepth : s.depth = 0)
    (hlayout : s.context.layout = c.layout) (hs : s.inLayout = false) :
    Along (History.Heads c) [] ((History.runner e (maxDepth + 1) main dot >>= fun content =>
      Traced.quiet (modify fun s => { s with mainContent := some content, inLayout := true }) >>=
        fun _ => History.runner e (maxDepth + 1) layout dot) s).2 := by
  rw [Traced.trail_bind]
  refine (heads_main main dot hdepth hlayout hs).append ?_
  have hends := exists_ends_runner e maxDepth main dot hdepth
  have hsteady := (History.follows_runner e (maxDepth + 1) main dot s).steady
  cases he : (History.runner e (maxDepth + 1) main dot).run s with
  | error f t => exact .nil
  | ok content t =>
    rw [Run.final_of_ok he] at hsteady
    exact heads_layout (s := { t with mainContent := some content, inLayout := true }) layout dot hends
      (hsteady.layout.trans hlayout) rfl

/-- **The state knows whether the layout is still to come.** -/
theorem history_heads (e : Environment) (c : RenderContext) :
    Along (History.Heads c) [] (e.history c) := by
  unfold history History.renderMain
  rw [Traced.trail_get]
  rcases c with ⟨_ | main, _ | layout, yields, blocks, dot⟩
  · exact .nil
  · exact .nil
  · exact heads_main main dot rfl rfl rfl
  · exact heads_framed main layout dot rfl rfl rfl

end Environment

/-! ## Calls that open a block -/

namespace Eval

open Run

variable {run : Runner} {context : HtmlContext} {slot : String} {s : State}

/-- A call in the state `s` that opens a block catches the text of the block. -/
def CapturesBlock (run : Runner) (context : HtmlContext) (slot : String) (s : State) : Prop :=
  openBlock run context slot s =
    .ok ⟨⟩ { s with output := s.output.push (.capture slot (.ofContext context) "") }

/-- A call in the state `s` that opens a block writes: the text of the block goes through if the slot is
free, and the content of the slot is written in its place if there is a template or a block for it. -/
structure WritesBlock (run : Runner) (context : HtmlContext) (slot : String) (s : State) : Prop where
  free : Table.get? slot s.context.yields = none → Table.get? slot s.context.blocks = none →
    openBlock run context slot s = .ok ⟨⟩ { s with output := s.output.push .through }
  template (template : String) : Table.get? slot s.context.yields = some template →
    openBlock run context slot s = (do
      let text ← run template s.root
      Run.write text
      pushFrame .discard) { s with events := .blockTemplate slot template :: s.events }
  block (b : Block) : Table.get? slot s.context.yields = none →
    Table.get? slot s.context.blocks = some b →
    openBlock run context slot s = (do
      let text ← Run.lift (blockContent slot b context)
      Run.write text
      pushFrame .discard) { s with events := .blockContent slot :: s.events }

theorem capturesBlock (h : s.isCapturing = true) : CapturesBlock run context slot s := by
  unfold CapturesBlock
  rw [openBlock, get_bind, if_pos h]
  rfl

theorem writesBlock (h : s.isCapturing = false) : WritesBlock run context slot s := by
  have hs : ¬ s.isCapturing = true := by simp [h]
  refine ⟨fun hyields hblocks => ?_, fun template htemplate => ?_, fun b hyields hb => ?_⟩
  · rw [openBlock, get_bind, if_neg hs, hyields, hblocks]
    rfl
  · rw [openBlock, get_bind, if_neg hs, htemplate]
    rfl
  · rw [openBlock, get_bind, if_neg hs, hyields, hb]
    rfl

end Eval

namespace Environment

variable {e : Environment} {c : RenderContext}

/-- **Blocks are captured in a template that has called `extends` itself, and in all templates while
the layout is pending.** -/
theorem history_isCapturing {before after : List Moment} {m : Moment}
    (h : e.history c = before ++ m :: after) (hm : m.deed.isInside = true) :
    m.state.isCapturing = true ↔
      History.Extended before m.state.depth ∨ c.LayoutPending before := by
  have hroot := e.history_extended c before m after h
  obtain ⟨hlayout, hin⟩ := e.history_heads c before m after h
  have hparent : m.state.parent.isSome = m.state.output.discardsRoot :=
    e.history_parent c m (by simp [h]) hm
  simp only [List.nil_append] at hroot hin
  have hpending : (!m.state.inLayout) = true ↔
      ∀ m ∈ before, m.state.depth = 0 → ∀ name, m.deed ≠ .ends (.chain name) := by
    rw [Bool.not_eq_true', ← Bool.not_eq_true, hin]
    simp
  unfold State.isCapturing RenderContext.LayoutPending
  rw [Bool.or_eq_true, Bool.and_eq_true, hparent, hroot, hlayout, hpending]

/-- **Which blocks are captured.** In every moment of a rendering that lies in a template, a call that
opens a block catches its text if the running template has called `extends` itself or the layout is
still pending, whichever template is running. In all other moments it writes the content of the slot, or
the text of the block if the slot is free. What a node does is what it does when it is run from the
state in which it begins. -/
theorem block_captured_iff (e : Environment) (c : RenderContext) :
    (History.renderMain e).run = renderMain e ∧
    (∀ before n s after, e.history c = before ++ ⟨.begins (.node n), s⟩ :: after →
      History.Runs e n s after) ∧
    ∀ before m after, e.history c = before ++ m :: after → m.deed.isInside = true →
      ∀ run context slot scopes events,
        (History.Extended before m.state.depth ∨ c.LayoutPending before →
          Eval.CapturesBlock run context slot { m.state with scopes, events }) ∧
        (¬ (History.Extended before m.state.depth ∨ c.LayoutPending before) →
          Eval.WritesBlock run context slot { m.state with scopes, events }) := by
  refine ⟨History.run_renderMain e, e.history_runs c,
    fun before m after h hm run context slot scopes events => ?_⟩
  have hcapturing := history_isCapturing h hm
  exact ⟨fun hcause => Eval.capturesBlock (hcapturing.2 hcause),
    fun hcause => Eval.writesBlock (Bool.eq_false_iff.2 fun h => hcause (hcapturing.1 h))⟩

/-- Two templates that are run for a page and have a block each: a part, and the base of an heir. -/
def framedPages : Environment where
  templates := [
    ("around", { name := "around", nodes := [
      .text "[", .action 1 .body { commands := [[.call "yield"]] }, .text "]"] }),
    ("base", { name := "base", nodes := [
      .text "<", .action 1 .body { commands := [[.call "block", .const (.text "x")]] },
      .text "default", .action 1 .body { commands := [[.call "end_block"]] }, .text ">"] }),
    ("heir", { name := "heir", nodes := [
      .action 1 .body { commands := [[.call "extends", .const (.text "base")]] },
      .action 1 .body { commands := [[.call "block", .const (.text "x")]] },
      .text "own", .action 1 .body { commands := [[.call "end_block"]] }] }),
    ("page", { name := "page", nodes := [
      .text "a", .action 1 .body { commands := [[.call "exec", .const (.text "part")]] },
      .text "b"] }),
    ("part", { name := "part", nodes := [
      .action 1 .body { commands := [[.call "block", .const (.text "x")]] },
      .text "body", .action 1 .body { commands := [[.call "end_block"]] }] })]

theorem render_eq_ok {e : Environment} {c : RenderContext} {text : String}
    (h : (e.render c).1.toOption = some text) : (e.render c).1 = .ok text := by
  cases hr : (e.render c).1 with
  | ok text' =>
    rw [hr] at h
    exact congrArg _ (Option.some.inj h)
  | error f =>
    rw [hr] at h
    cases h

/-- A part that the page runs, and the base of a chain, have not called `extends`, and neither of them
is the main template. Still their blocks are captured if there is a layout, so they show neither the
content of the slot nor their own text. -/
theorem framedPages_lose_blocks :
    (framedPages.render { main := some "page" }).1 = .ok "abodyb" ∧
    (framedPages.render { main := some "page", layout := some "around" }).1 = .ok "[ab]" ∧
    (framedPages.render { main := some "heir" }).1 = .ok "<own>" ∧
    (framedPages.render { main := some "heir", layout := some "around" }).1 = .ok "[<>]" ∧
    ∃ before s after, framedPages.history { main := some "page", layout := some "around" } =
        before ++ ⟨.captures "x" .body, s⟩ :: after ∧ s.depth = 2 ∧
      ¬ History.Extended before s.depth ∧ ∀ run, ¬ Eval.WritesBlock run .body "x" s := by
  refine ⟨render_eq_ok (by decide +kernel), render_eq_ok (by decide +kernel),
    render_eq_ok (by decide +kernel), render_eq_ok (by decide +kernel), ?_⟩
  obtain ⟨s, hsplit, hdepth, hcapturing, hyields, hblocks⟩ : ∃ s,
      framedPages.history { main := some "page", layout := some "around" } =
        (framedPages.history { main := some "page", layout := some "around" }).take 9 ++
          ⟨.captures "x" .body, s⟩ ::
          (framedPages.history { main := some "page", layout := some "around" }).drop 10 ∧
      s.depth = 2 ∧ s.isCapturing = true ∧ Table.get? "x" s.context.yields = none ∧
      s.context.blocks = [] := ⟨_, rfl, by rfl, by rfl, by rfl, by rfl⟩
  refine ⟨_, s, _, hsplit, hdepth, History.not_extended_of_all ?_, fun run hwrites => ?_⟩
  · decide +kernel
  · have hthrough := hwrites.free hyields (by rw [hblocks]; rfl)
    rw [Eval.capturesBlock hcapturing] at hthrough
    injection hthrough with _ hstate
    have hframes := congrArg (fun s => s.output.frames) hstate
    cases hframes

/-- Without a layout the part writes its block, with a layout it does not. -/
theorem block_captured_iff_framedPages :
    (∃ before m after, framedPages.history { main := some "page" } = before ++ m :: after ∧
      m.deed.isInside = true ∧
      Eval.WritesBlock (Render.runner framedPages 1) .body "x" m.state) ∧
    ∃ before m after, framedPages.history { main := some "page", layout := some "around" } =
        before ++ m :: after ∧ m.deed.isInside = true ∧
      Eval.CapturesBlock (Render.runner framedPages 1) .body "x" m.state := by
  constructor
  · obtain ⟨m, hsplit, hm⟩ : ∃ m, framedPages.history { main := some "page" } =
        (framedPages.history { main := some "page" }).take 9 ++ m ::
          (framedPages.history { main := some "page" }).drop 10 ∧ m.deed.isInside = true :=
      ⟨_, rfl, rfl⟩
    have hblock := (framedPages.block_captured_iff { main := some "page" }).2.2 _ m _ hsplit hm
      (Render.runner framedPages 1) .body "x" m.state.scopes m.state.events
    refine ⟨_, m, _, hsplit, hm, hblock.2 ?_⟩
    rintro (hextended | hpending)
    · exact History.not_extended_of_all (by decide +kernel) hextended
    · exact nomatch hpending.1
  · obtain ⟨m, hsplit, hm⟩ : ∃ m,
        framedPages.history { main := some "page", layout := some "around" } =
          (framedPages.history { main := some "page", layout := some "around" }).take 9 ++ m ::
            (framedPages.history { main := some "page", layout := some "around" }).drop 10 ∧
          m.deed.isInside = true := ⟨_, rfl, rfl⟩
    have hblock := (framedPages.block_captured_iff
      { main := some "page", layout := some "around" }).2.2 _ m _ hsplit hm
      (Render.runner framedPages 1) .body "x" m.state.scopes m.state.events
    exact ⟨_, m, _, hsplit, hm, hblock.1 (.inr (layoutPending_of_all rfl (by decide +kernel)))⟩

end Environment

end Stencil
