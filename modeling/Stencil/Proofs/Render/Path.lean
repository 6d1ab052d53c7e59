import Stencil.Proofs.Render.History

/-!
# The path of a rendering

What the moments of a history have to do with one another: each is in the state that the one before it
leaves, and a stretch that begins ends again, also if something in it fails.

* `Deed.apply` is what a deed does that stands by itself.
* `Path s H t` says that the moments `H` lead from the state `s` to the state `t`; `Path.exists_end`
  says that what begins on a path ends on it.
* `Path.Invariant` are the statements about a state and the moments before it that survive every step,
  and `Path.Invariant.along` says that they hold all along a path.
-/

namespace Stencil

open Render

/-! ## Deeds -/

namespace Stretch

/-- Whether the stretch is the execution of a template. -/
def isTemplate : Stretch → Bool
  | .template .. => true
  | _ => false

/-- By how much a stretch is deeper than what is around it. -/
def rise (b : Stretch) : Nat := if b.isTemplate then 1 else 0

theorem depth_enter (b : Stretch) (s : State) : (b.enter s).depth = s.depth + b.rise := by
  cases b <;> rfl

theorem depth_leave (b : Stretch) (s t : State) : (b.leave s t).depth = t.depth - b.rise := by
  cases b <;> rfl

end Stretch

namespace Deed

/-- Whether a deed stands by itself, and neither begins nor ends a stretch. -/
def isSingle : Deed → Bool
  | .begins _ | .ends _ => false
  | _ => true

/-- Whether the execution of a template begins. -/
def beginsTemplate : Deed → Bool
  | .begins b => b.isTemplate
  | _ => false

/-- Whether the execution of a template ends. -/
def endsTemplate : Deed → Bool
  | .ends b => b.isTemplate
  | _ => false

end Deed

/-- The state with the innermost block closed: captured text fills its slot unless that is claimed. -/
def Render.State.closed (s : State) : State :=
  match s.output.frames with
  | [] => s
  | .capture slot kind content :: frames =>
    if s.context.isClaimed slot then { s with output := { s.output with frames } }
    else
      { s with
        output := { s.output with frames }
        context := s.context.fillSlot slot { content, kind } }
  | _ :: frames => { s with output := { s.output with frames } }

/-- What a deed does that stands by itself. -/
def Deed.apply : Deed → State → State
  | .writes text, s => { s with output := s.output.write text }
  | .captures slot context, s =>
    { s with output := s.output.push (.capture slot (.ofContext context) "") }
  | .drops _, s => { s with output := s.output.push .discard }
  | .passes _, s => { s with output := s.output.push .through }
  | .closes, s => s.closed
  | .maps slot template, s => { s with context := s.context.mapSlot slot template }
  | .inherits template, s => { s with parent := some template, output := s.output.discardRoot }
  | .takes, s => { s with parent := none }
  | .begins _, s => s
  | .ends _, s => s

theorem Deed.depth_apply (d : Deed) (s : State) : (d.apply s).depth = s.depth := by
  cases d with
  | closes =>
    simp only [Deed.apply, State.closed]
    split
    · rfl
    · split <;> rfl
    · rfl
  | _ => rfl

/-! ## Paths -/

/-- The moments of a part of a chain of templates that are as deep as the chain: its templates begin,
or the next of them is taken up. No more than `n` templates begin. -/
structure Chained (depth n : Nat) (H : List Moment) : Prop where
  deeds : ∀ m ∈ H, m.state.depth = depth → m.deed = .takes ∨ m.deed.beginsTemplate
  begun : H.countP (fun m => m.deed.beginsTemplate && m.state.depth == depth) ≤ n

theorem Chained.nil (depth n : Nat) : Chained depth n [] := ⟨by simp, by simp⟩

theorem Chained.append {depth m n : Nat} {H H' : List Moment} (h : Chained depth m H)
    (h' : Chained depth n H') : Chained depth (m + n) (H ++ H') where
  deeds := List.forall_mem_append.2 ⟨h.deeds, h'.deeds⟩
  begun := by
    rw [List.countP_append]
    exact Nat.add_le_add h.begun h'.begun

/-- What has to hold of a stretch: the limits on the depth and on the length of a chain. A chain has
its main template besides the ones that are extended. -/
def Stretch.Allows : Stretch → State → List Moment → Prop
  | .node _, _, _ => True
  | .template .., s, _ => s.depth < maxDepth
  | .chain _, s, inside => Chained s.depth (maxParents + 1) inside

/-- The moments lead from the first state to the second one. Variables and the log may change at any
time. -/
inductive Path : State → List Moment → State → Prop where
  | nil (s : State) : Path s [] s
  | quiet {s t : State} {H : List Moment} (scopes : Scopes) (events : List Event) :
    Path { s with scopes, events } H t → Path s H t
  | single {s t : State} {H : List Moment} {d : Deed} : d.isSingle = true → Path (d.apply s) H t →
    Path s (⟨d, s⟩ :: H) t
  | stretch {s t u : State} {I H : List Moment} {b : Stretch} : b.Allows s I →
    Path (b.enter s) I t → Path (b.leave s t) H u →
    Path s (⟨.begins b, s⟩ :: (I ++ ⟨.ends b, t⟩ :: H)) u

namespace Path

variable {s t u : State} {H H' : List Moment}

theorem trans (h : Path s H t) (h' : Path t H' u) : Path s (H ++ H') u := by
  induction h with
  | nil s => exact h'
  | quiet scopes events _ ih => exact .quiet scopes events (ih h')
  | single hd _ ih => exact .single hd (ih h')
  | stretch hallows hI _ _ ih => simpa using Path.stretch hallows hI (ih h')

/-- Variables and the log may also change at the end. -/
theorem quiet_end {scopes : Scopes} {events : List Event} (h : Path s H t) :
    Path s H { t with scopes, events } := by
  simpa using h.trans (.quiet scopes events (.nil _))

/-- What begins has ended behind a path, so the depth is the same again. -/
theorem depth_eq (h : Path s H t) : t.depth = s.depth := by
  induction h with
  | nil s => rfl
  | quiet scopes events _ ih => exact ih
  | @single s t H d _ _ ih => rw [ih, d.depth_apply]
  | @stretch s t u I H b _ _ _ ihI ih =>
    rw [b.depth_enter] at ihI
    rw [ih, b.depth_leave]
    omega

/-- No moment is less deep than the beginning of the path. -/
theorem depth_le (h : Path s H t) : ∀ m ∈ H, s.depth ≤ m.state.depth := by
  induction h with
  | nil s => simp
  | quiet scopes events _ ih => exact ih
  | @single s t H d _ _ ih => simpa [d.depth_apply] using ih
  | @stretch s t u I H b _ hI _ ihI ih =>
    have ht := hI.depth_eq
    simp only [b.depth_enter, b.depth_leave] at ht ihI ih
    simp only [List.mem_cons, List.mem_append, forall_eq_or_imp]
    refine ⟨Nat.le_refl _, ?_⟩
    rintro m (hm | rfl | hm)
    · have := ihI m hm
      omega
    · simp only
      omega
    · have := ih m hm
      omega

/-- **A stretch that begins ends again**, behind moments that it allows and that lead there. -/
theorem exists_end (h : Path s H t) : ∀ {before after : List Moment} {b : Stretch} {u : State},
    H = before ++ ⟨.begins b, u⟩ :: after → ∃ I v rest, after = I ++ ⟨.ends b, v⟩ :: rest ∧
      b.Allows u I ∧ Path (b.enter u) I v := by
  induction h with
  | nil s => simp
  | quiet scopes events _ ih => exact ih
  | @single s t H d hd _ ih =>
    intro before after b u heq
    cases before with
    | nil =>
      obtain ⟨⟨rfl, rfl⟩, rfl⟩ := by simpa using heq
      cases hd
    | cons m before =>
      exact ih (List.cons.inj heq).2
  | @stretch s t u I H b hallows hI _ ihI ih =>
    intro before after b' u' heq
    cases before with
    | nil =>
      obtain ⟨⟨rfl, rfl⟩, rfl⟩ := by simpa using heq
      exact ⟨I, t, H, rfl, hallows, hI⟩
    | cons m before =>
      -- the other beginning lies in this stretch, at its end, or behind it
      have htail := (List.cons.inj heq).2
      rcases List.append_eq_append_iff.1 htail with
        ⟨between, rfl, hbetween⟩ | ⟨between, rfl, hbetween⟩
      · cases between with
        | nil =>
          obtain ⟨hdeed, -⟩ := List.cons.inj hbetween
          cases hdeed
        | cons m between =>
          obtain ⟨-, hbetween⟩ := List.cons.inj hbetween
          exact ih hbetween
      · cases between with
        | nil =>
          obtain ⟨hdeed, -⟩ := List.cons.inj hbetween
          cases hdeed
        | cons m between =>
          obtain ⟨rfl, rfl⟩ := List.cons.inj hbetween
          obtain ⟨I', v, rest, rfl, hallows', hI'⟩ := ihI rfl
          exact ⟨I', v, rest ++ ⟨.ends b, t⟩ :: H, by simp, hallows', hI'⟩

end Path

/-! ## Invariants of the past -/

/-- What holds of the state in every moment, with all moments before it. -/
def Along (J : List Moment → State → Prop) (past H : List Moment) : Prop :=
  ∀ before m after, H = before ++ m :: after → J (past ++ before) m.state

namespace Along

variable {J : List Moment → State → Prop} {past H H' : List Moment} {m : Moment}

theorem nil : Along J past [] := by
  intro before m after h
  simp at h

theorem cons (hm : J past m.state) (h : Along J (past ++ [m]) H) : Along J past (m :: H) := by
  intro before m' after heq
  cases before with
  | nil =>
    obtain ⟨rfl, -⟩ := List.cons.inj heq
    simpa using hm
  | cons m'' before =>
    obtain ⟨rfl, htail⟩ := List.cons.inj heq
    simpa using h before m' after htail

theorem append (h : Along J past H) (h' : Along J (past ++ H) H') : Along J past (H ++ H') := by
  induction H generalizing past with
  | nil => simpa using h'
  | cons m H ih =>
    refine .cons (by simpa using h [] m H rfl) (ih (fun before m' after heq => ?_) (by simpa using h'))
    simpa using h (m :: before) m' after (congrArg (m :: ·) heq)

end Along

/-- What survives every step of a path, together with the moments before it. -/
structure Path.Invariant (J : List Moment → State → Prop) : Prop where
  quiet : ∀ past s scopes events, J past s → J past { s with scopes, events }
  single : ∀ past s d, d.isSingle = true → J past s → J (past ++ [⟨d, s⟩]) (d.apply s)
  enter : ∀ past s b I, b.Allows s I → J past s → J (past ++ [⟨.begins b, s⟩]) (b.enter s)
  leave : ∀ past s b I t, Path (b.enter s) I t → J past s → J (past ++ ⟨.begins b, s⟩ :: I) t →
    J (past ++ ⟨.begins b, s⟩ :: (I ++ [⟨.ends b, t⟩])) (b.leave s t)

/-- **An invariant holds in every moment of a path** and behind it. -/
theorem Path.Invariant.along {J : List Moment → State → Prop} (hJ : Invariant J) {s t : State}
    {H : List Moment} (h : Path s H t) :
    ∀ past, J past s → Along J past H ∧ J (past ++ H) t := by
  induction h with
  | nil s => exact fun past hs => ⟨.nil, by simpa using hs⟩
  | quiet scopes events _ ih => exact fun past hs => ih past (hJ.quiet past _ scopes events hs)
  | @single s t H d hd _ ih =>
    intro past hs
    obtain ⟨halong, ht⟩ := ih _ (hJ.single past s d hd hs)
    exact ⟨.cons hs halong, by simpa using ht⟩
  | @stretch s t u I H b hallows hI _ ihI ih =>
    intro past hs
    obtain ⟨halongI, ht⟩ := ihI _ (hJ.enter past s b I hallows hs)
    rw [List.append_assoc, List.singleton_append] at ht
    obtain ⟨halong, hu⟩ := ih _ (hJ.leave past s b I t hI hs ht)
    refine ⟨.cons hs (halongI.append (.cons ?_ ?_)), by simpa using hu⟩
    · simpa using ht
    · simpa using halong

end Stencil
