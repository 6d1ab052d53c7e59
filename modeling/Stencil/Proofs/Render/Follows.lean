import Stencil.Proofs.Render.Composable

/-!
# Renderings follow a path

Running nodes and templates with a history does what the history says.

* `Traced.Follows` says so of a computation; the lemmas follow the ways in which computations are put
  together.
* `History.Chains` says how many templates a chain begins.
* `History.follows_nodes` and `History.follows_runner` are the statement for nodes and templates,
  `Environment.history_paths` for a rendering: it follows one path for the main template and another
  one for its layout.
-/

namespace Stencil

open Render

/-! ## Computations that follow a path -/

/-- From the state `s` the computation does what its moments say. -/
def Traced.FollowsAt {α : Type} (s : State) (act : Traced Moment α) : Prop :=
  Path s (act s).2 (act.run.final s)

/-- The computation does what its moments say. -/
def Traced.Follows {α : Type} (act : Traced Moment α) : Prop := ∀ s, act.FollowsAt s

namespace Traced

variable {α β : Type} {s : State}

namespace FollowsAt

theorem bind {act : Traced Moment α} {k : α → Traced Moment β} (h : act.FollowsAt s)
    (hk : ∀ a t, act.run s = .ok a t → (k a).FollowsAt t) : (act >>= k).FollowsAt s := by
  unfold FollowsAt at h hk ⊢
  rw [final_bind]
  change Path s (andThen act k s).2 _
  unfold andThen
  rcases he : act s with ⟨⟨a, t⟩ | ⟨f, t⟩, trail⟩
  · have hrun : act.run s = .ok a t := congrArg Prod.fst he
    rw [Run.final_of_ok hrun, he] at h
    rw [hrun]
    exact h.trans (hk a t hrun)
  · have hrun : act.run s = .error f t := congrArg Prod.fst he
    rw [Run.final_of_error hrun, he] at h
    rw [hrun]
    exact h

theorem quiet {act : Run α} (h : act.Local) : FollowsAt s (Traced.quiet act : Traced Moment α) := by
  obtain ⟨scopes, events, he⟩ := h s
  change Path s [] (act.final s)
  rw [he]
  exact .quiet scopes events (.nil _)

/-- A deed in a moment of its own, apart from variables and the log. -/
theorem note {d : Deed} {act : Run α} (hd : d.isSingle = true)
    (h : ∃ scopes events, act.final s = { d.apply s with scopes, events }) :
    FollowsAt s (History.note d act) := by
  obtain ⟨scopes, events, he⟩ := h
  change Path s [⟨d, s⟩] (act.final s)
  rw [he]
  exact .single hd (.quiet scopes events (.nil _))

theorem located {act : Traced Moment α} (template : String) (line : Nat) (h : act.FollowsAt s) :
    FollowsAt s (Traced.located template line act) := by
  change Path s (act s).2 ((Run.located template line act.run).final s)
  rw [Run.final_located]
  exact h

theorem inScope {act : Traced Moment α} (enter : Scopes → Scopes)
    (h : act.FollowsAt { s with scopes := enter s.scopes }) :
    FollowsAt s (Traced.inScope enter act) := by
  change Path s (act _).2 ((Run.inScope enter act.run).final s)
  unfold Run.inScope
  rw [Run.final_guarded]
  exact Path.quiet (enter s.scopes) s.events (Path.quiet_end h)

theorem within {b : Stretch} {act : Traced Moment α} (h : act.FollowsAt (b.enter s))
    (hallows : b.Allows s (act (b.enter s)).2) : FollowsAt s (History.within b act) := by
  change Path s (_ :: (_ ++ [_])) ((Run.guarded b.enter b.leave act.run).final s)
  rw [Run.final_guarded]
  exact .stretch hallows h (.nil _)

end FollowsAt

namespace Follows

theorem bind {act : Traced Moment α} {k : α → Traced Moment β} (h : act.Follows)
    (hk : ∀ a, (k a).Follows) : (act >>= k).Follows :=
  fun s => (h s).bind fun a t _ => hk a t

theorem quiet {act : Run α} (h : act.Local) : Follows (Traced.quiet act : Traced Moment α) :=
  fun _ => .quiet h

theorem pure (a : α) : Follows (Pure.pure a : Traced Moment α) := quiet (.pure a)

theorem fail (c : Cause) : Follows (Traced.quiet (Run.fail c : Run α) : Traced Moment α) :=
  quiet (.fail c)

theorem lift (o : Outcome α) : Follows (Traced.quiet (Run.lift o) : Traced Moment α) :=
  quiet (.lift o)

theorem emit (ev : Event) : Follows (Traced.quiet (Run.emit ev) : Traced Moment PUnit) :=
  quiet (.emit ev)

theorem getState {k : State → Traced Moment β} (h : ∀ s, (k s).FollowsAt s) :
    Follows (Traced.quiet (MonadState.get : Run State) >>= k) := by
  refine fun s => FollowsAt.bind (.quiet .get) fun a t he => ?_
  cases he
  exact h s

theorem located {act : Traced Moment α} (template : String) (line : Nat) (h : act.Follows) :
    Follows (Traced.located template line act) := fun s => (h s).located template line

theorem inScope {act : Traced Moment α} (enter : Scopes → Scopes) (h : act.Follows) :
    Follows (Traced.inScope enter act) := fun _ => .inScope enter (h _)

end Follows

end Traced

namespace History

open Traced

variable {e : Environment} {run : Teller}

/-! ## Nodes -/

theorem composable_follows (hrun : ∀ name dot, (run name dot).Follows) (t : Template) :
    Composable e run t fun _ act => act.Follows where
  ran := hrun
  quiet h _ := .quiet h
  bind := .bind
  noted hd _ h _ := fun s => .note hd (h s)
  inScope enter h := h.inScope enter
  located template line h := h.located template line
  stretch _ _ h := fun _ => .within (h _) trivial

/-- **Nodes follow a path.** -/
theorem follows_nodes (hrun : ∀ name dot, (run name dot).Follows) (t : Template) (ns : List Node) :
    (nodes e run t ns).Follows :=
  (composable_follows hrun t).nodes ns

/-! ## Templates that run one another -/

theorem local_finished : finished.Local := by
  refine .getState fun s => ?_
  dsimp only
  split
  · exact .pure _
  · exact .fail _

theorem follows_takeParent : (note .takes takeParent).Follows := fun s =>
  .note rfl ⟨s.scopes, s.events, rfl⟩

theorem follows_execute (hrun : ∀ name dot, (run name dot).Follows) (name : String) (dot : Value) :
    (execute e run name dot).Follows := by
  refine .bind (.lift _) fun t => .getState fun s => ?_
  split
  · exact Follows.fail _ s
  · next hs =>
    refine .located _ _ (.within ?_ (Nat.lt_of_not_le hs))
    exact Follows.bind (follows_nodes hrun t t.nodes) (fun _ => .quiet local_finished) _

theorem follows_followParents {exec : Teller} (hexec : ∀ name dot, (exec name dot).Follows)
    (name : String) (n : Nat) : ∀ output, (followParents exec name n output).Follows := by
  induction n with
  | zero =>
    refine fun output => .bind follows_takeParent fun parent => ?_
    cases parent with
    | none => exact .pure output
    | some _ => exact .fail _
  | succ n ih =>
    refine fun output => .bind follows_takeParent fun parent => ?_
    cases parent with
    | none => exact .pure output
    | some parent =>
      refine .bind (.emit _) fun _ => .getState fun s => ?_
      exact Follows.bind (hexec parent s.root) ih s

/-! ## The length of a chain -/

/-- As a part of a chain the computation begins no more than `n` templates. -/
def Chains {α : Type} (n : Nat) (act : Traced Moment α) : Prop := ∀ s, Chained s.depth n (act s).2

namespace Chains

variable {α β : Type} {m n : Nat}

theorem quiet (act : Run α) : Chains n (Traced.quiet act) := fun s => Chained.nil s.depth n

theorem bind {act : Traced Moment α} {k : α → Traced Moment β} (hact : act.Follows)
    (h : Chains m act) (hk : ∀ a, Chains n (k a)) : Chains (m + n) (act >>= k) := by
  intro s
  have hdepth := (hact s).depth_eq
  have hs := h s
  change Chained s.depth (m + n) (andThen act k s).2
  unfold andThen
  rcases he : act s with ⟨⟨a, t⟩ | ⟨f, t⟩, trail⟩
  · have hrun : act.run s = .ok a t := congrArg Prod.fst he
    rw [Run.final_of_ok hrun] at hdepth
    rw [he] at hs
    exact hs.append (hdepth ▸ hk a t)
  · rw [he] at hs
    simpa using hs.append (Chained.nil s.depth n)

theorem quiet_bind {act : Run α} {k : α → Traced Moment β} (h : act.Local)
    (hk : ∀ a, Chains n (k a)) : Chains n (Traced.quiet act >>= k) := by
  simpa using Chains.bind (.quiet h) (.quiet (n := 0) act) hk

/-- The execution of a template begins one template: all others are deeper. -/
theorem template {act : Traced Moment α} (h : act.Follows) (name : String) (dot : Value) :
    Chains 1 (within (.template name dot) act) := by
  intro s
  have hinside := (h ((Stretch.template name dot).enter s)).depth_le
  have hend := (h ((Stretch.template name dot).enter s)).depth_eq
  change Chained s.depth 1 (_ :: (_ ++ [_]))
  simp only [Stretch.depth_enter, Stretch.rise, Stretch.isTemplate] at hinside hend
  constructor
  · simp only [List.mem_cons, List.mem_append, List.not_mem_nil, or_false]
    rintro m (rfl | hm | rfl) hdepth
    · exact .inr rfl
    · have := hinside m hm
      simp at this
      omega
    · simp only at hdepth
      simp at hend
      omega
  · have hnone : ((act ((Stretch.template name dot).enter s)).2).countP
        (fun m => m.deed.beginsTemplate && m.state.depth == s.depth) = 0 := by
      refine List.countP_eq_zero.2 fun m hm hcount => ?_
      have := hinside m hm
      simp at this hcount
      omega
    rw [List.countP_cons, List.countP_append, hnone]
    simp [Deed.beginsTemplate, Stretch.isTemplate]

end Chains

theorem chains_takeParent (n : Nat) : Chains n (note .takes takeParent) := fun s =>
  ⟨fun m hm _ => .inl (congrArg Moment.deed (List.mem_singleton.1 hm)), by simp [note, noted,
    Deed.beginsTemplate]⟩

theorem chains_execute (hrun : ∀ name dot, (run name dot).Follows) (name : String) (dot : Value) :
    Chains 1 (execute e run name dot) := by
  refine .quiet_bind (.lift _) fun t => .quiet_bind .get fun s => ?_
  split
  · exact .quiet _
  · exact Chains.template (.bind (follows_nodes hrun t t.nodes) fun _ => .quiet local_finished) _ _

/-- Every parent is one more template of the chain. -/
theorem chains_followParents {exec : Teller} (hexec : ∀ name dot, (exec name dot).Follows)
    (hone : ∀ name dot, Chains 1 (exec name dot)) (name : String) (n : Nat) :
    ∀ output, Chains n (followParents exec name n output) := by
  induction n with
  | zero =>
    refine fun output => Chains.bind (m := 0) (n := 0) follows_takeParent (chains_takeParent 0)
      fun parent => ?_
    cases parent with
    | none => exact .quiet _
    | some _ => exact .quiet _
  | succ n ih =>
    intro output
    have hchain : Chains (0 + (1 + n)) (followParents exec name (n + 1) output) := by
      refine Chains.bind follows_takeParent (chains_takeParent 0) fun parent => ?_
      cases parent with
      | none => exact .quiet _
      | some parent =>
        exact .quiet_bind (.emit _) fun _ => .quiet_bind .get fun s =>
          .bind (hexec parent s.root) (hone parent s.root) ih
    rwa [Nat.zero_add, Nat.add_comm] at hchain

/-- A chain has one template besides the ones that are extended. -/
theorem chains_followed {exec : Teller} (hexec : ∀ name dot, (exec name dot).Follows)
    (hone : ∀ name dot, Chains 1 (exec name dot)) (name : String) (dot : Value) :
    Chains (maxParents + 1) (exec name dot >>= followParents exec name maxParents) := by
  rw [Nat.add_comm]
  exact .bind (hexec name dot) (hone name dot) (chains_followParents hexec hone name maxParents)

theorem follows_runChain {exec : Teller} (hexec : ∀ name dot, (exec name dot).Follows)
    (hone : ∀ name dot, Chains 1 (exec name dot)) (name : String) (dot : Value) :
    (runChain exec name dot).Follows := by
  refine fun s => .within ?_ (chains_followed hexec hone name dot ((Stretch.chain name).enter s))
  exact Follows.bind (hexec name dot) (follows_followParents hexec name maxParents) _

/-- **Running a template follows a path**, by induction on the room that is left. -/
theorem follows_runner (e : Environment) (room : Nat) :
    ∀ name dot, (runner e room name dot).Follows := by
  induction room with
  | zero => exact fun _ _ => .fail _
  | succ room ih =>
    exact follows_runChain (follows_execute ih) (chains_execute ih)

/-- What running a template does stands between the beginning of its chain and the end of it. -/
theorem trail_runner (e : Environment) (room : Nat) (name : String) (dot : Value) (s : State) :
    ∃ I t, (runner e (room + 1) name dot s).2 =
        ⟨.begins (.chain name), s⟩ :: (I ++ [⟨.ends (.chain name), t⟩]) ∧
      Chained s.depth (maxParents + 1) I ∧ t.depth = s.depth := by
  have hexec := follows_execute (e := e) (follows_runner e room)
  have hchain : (execute e (runner e room) name dot >>=
      followParents (execute e (runner e room)) name maxParents).Follows :=
    .bind (hexec name dot) (follows_followParents hexec name maxParents)
  have hchained := chains_followed hexec (chains_execute (e := e) (follows_runner e room)) name dot
  exact ⟨_, _, rfl, hchained ((Stretch.chain name).enter s),
    (hchain ((Stretch.chain name).enter s)).depth_eq⟩

end History

/-- **A rendering follows a path** for its main template and another one for the layout, on a state
that has the main content. -/
theorem Environment.history_paths (e : Environment) (c : RenderContext) :
    ∃ H H' t t' mainContent inLayout, e.history c = H ++ H' ∧ Path { context := c } H t ∧
      Path { t with mainContent, inLayout } H' t' := by
  have hrun := History.follows_runner e (maxDepth + 1)
  have halone {H : List Moment} {t : State} (h : Path { context := c } H t) :
      ∃ H' H'' t t' mainContent inLayout, H = H' ++ H'' ∧ Path { context := c } H' t ∧
        Path { t with mainContent, inLayout } H'' t' :=
    ⟨H, [], t, _, none, false, (List.append_nil H).symm, h, .nil _⟩
  have hmain (main : String) : Path { context := c }
      (History.runner e (maxDepth + 1) main c.dot
        { context := c, events := [.rendering main c.layout] }).2
      ((History.runner e (maxDepth + 1) main c.dot).run.final
        { context := c, events := [.rendering main c.layout] }) :=
    .quiet [] _ (hrun main c.dot _)
  unfold history History.renderMain
  rw [Traced.trail_get]
  rcases c with ⟨_ | main, _ | layout, yields, blocks, dot⟩
  · exact halone (.nil _)
  · exact halone (.nil _)
  · exact halone (hmain main)
  · have hmain := hmain main
    dsimp only
    rw [Traced.trail_emit, Traced.trail_bind]
    dsimp only at hmain ⊢
    cases he : (History.runner e (maxDepth + 1) main dot).run
        { context := ⟨some main, some layout, yields, blocks, dot⟩,
          events := [.rendering main (some layout)] } with
    | ok content t =>
      rw [Run.final_of_ok he] at hmain
      exact ⟨_, _, t, _, some content, true, congrArg (_ ++ ·) (by rw [State.root, he]; rfl), hmain,
        hrun layout dot _⟩
    | error f t =>
      rw [Run.final_of_error he] at hmain
      exact ⟨_, [], t, _, none, false, congrArg (_ ++ ·) (by rw [State.root, he]), hmain, .nil _⟩

/-- **Every stretch of a rendering ends.** -/
theorem Environment.history_stretch {e : Environment} {c : RenderContext} {before after : List Moment}
    {b : Stretch} {s : State} (h : e.history c = before ++ ⟨.begins b, s⟩ :: after) :
    ∃ I t rest, after = I ++ ⟨.ends b, t⟩ :: rest ∧ b.Allows s I ∧ Path (b.enter s) I t := by
  obtain ⟨H, H', t, t', mainContent, inLayout, hhistory, hH, hH'⟩ := e.history_paths c
  rw [hhistory] at h
  -- the stretch begins with the layout or behind its beginning, or it belongs to the main template
  rcases List.append_eq_append_iff.1 h with ⟨between, -, hlayout⟩ | ⟨between, hmain, hlayout⟩
  · exact hH'.exists_end hlayout
  · cases between with
    | nil =>
      have hlayout : H' = [] ++ ⟨.begins b, s⟩ :: after := hlayout.symm
      exact hH'.exists_end hlayout
    | cons m between =>
      obtain ⟨rfl, rfl⟩ := List.cons.inj hlayout
      obtain ⟨I, u, rest, rfl, hallows, hI⟩ := hH.exists_end hmain
      exact ⟨I, u, rest ++ H', by simp, hallows, hI⟩

end Stencil
