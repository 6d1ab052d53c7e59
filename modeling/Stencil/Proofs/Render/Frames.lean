import Stencil.Render.Output

/-!
# The frames of an output

Blocks are opened and closed in the manner of brackets, and what is done while a block is open leaves
everything below it alone, except for what it lets through.

* `Output.Step` is what can be done to an output, and `Output.Matched` says that every block that some
  steps close has been opened by them, and the other way round.
* `Output.surface` are the steps that are felt below the blocks that are open on top, and
  `Output.run_matched` says that steps that match do no more than these.
* `Output.frame_faithful` concludes what has become of a frame and of everything below it.
-/

namespace Stencil

/-- Whether what is written goes on to the frame below. -/
def Frame.isThrough : Frame → Bool
  | .through => true
  | _ => false

/-- The frame with another text behind what it has caught. -/
def Frame.add (text : String) : Frame → Frame
  | .capture slot kind content => .capture slot kind (content ++ text)
  | f => f

namespace Frame

theorem add_empty (f : Frame) : f.add "" = f := by
  cases f with
  | capture slot kind content => rw [add, String.append_empty]
  | discard => rfl
  | through => rfl

theorem add_add (f : Frame) (text text' : String) : (f.add text).add text' = f.add (text ++ text') := by
  cases f with
  | capture slot kind content => rw [add, add, add, String.append_assoc]
  | discard => rfl
  | through => rfl

theorem isThrough_add (f : Frame) (text : String) : (f.add text).isThrough = f.isThrough := by
  cases f <;> rfl

end Frame

namespace Output

/-! ## Writing on top of a frame -/

section Write

variable {o : Output}

theorem write_discard (text : String) : (o.push .discard).write text = o.push .discard := rfl

theorem write_through (text : String) :
    (o.push .through).write text = (o.write text).push .through := by
  unfold write push
  rw [writeFrames]
  cases writeFrames text o.frames with
  | some frames => rfl
  | none =>
    simp only [Option.map_none]
    split <;> rfl

end Write

/-! ## Steps -/

/-- What is done to an output. -/
inductive Step where
  | write (text : String)
  | push (f : Frame)
  | pop
  | discardRoot
  deriving DecidableEq

/-- Does a step. -/
def Step.apply (o : Output) : Step → Output
  | .write text => o.write text
  | .push f => o.push f
  | .pop => o.pop.2
  | .discardRoot => o.discardRoot

/-- Does some steps one after the other. -/
def run (o : Output) (steps : List Step) : Output := steps.foldl Step.apply o

/-- The number of blocks that are open after some steps if `n` are open before them; none if a step
closes a block although there is none. -/
def openAfter : Nat → List Step → Option Nat
  | n, [] => some n
  | n, .push _ :: steps => openAfter (n + 1) steps
  | 0, .pop :: _ => none
  | n + 1, .pop :: steps => openAfter n steps
  | n, .write _ :: steps => openAfter n steps
  | n, .discardRoot :: steps => openAfter n steps

/-- The steps close exactly the blocks that they open. -/
def Matched (steps : List Step) : Prop := openAfter 0 steps = some 0

instance (steps : List Step) : Decidable (Matched steps) :=
  inferInstanceAs (Decidable (openAfter 0 steps = some 0))

/-- The steps that are felt below the frames `above`, which stand on top: what is written while all of
the frames on top let it through, and that the text outside of all blocks is dropped. -/
def surface (above : List Frame) : List Step → List Step
  | [] => []
  | .write text :: steps =>
    if above.all (·.isThrough) then .write text :: surface above steps else surface above steps
  | .push f :: steps => surface (f :: above) steps
  | .pop :: steps => surface above.tail steps
  | .discardRoot :: steps => .discardRoot :: surface above steps

/-- What a step writes. -/
def Step.text : Step → String
  | .write text => text
  | _ => ""

/-- The texts that some steps write while no frame on top keeps them. -/
def caught (steps : List Step) : String := String.join ((surface [] steps).map Step.text)

/-! ## What is felt below -/

/-- The output with some frames on top, the innermost first. -/
def under (above : List Frame) (o : Output) : Output := { o with frames := above ++ o.frames }

/-- What is written reaches the output if all frames on top let it through. Otherwise one of these
keeps it, and they let through what they have let through before. -/
theorem write_under (text : String) (above : List Frame) (o : Output) :
    ∃ above', above'.map (·.isThrough) = above.map (·.isThrough) ∧ (under above o).write text =
      under above' (if above.all (·.isThrough) then o.write text else o) := by
  induction above with
  | nil => exact ⟨[], rfl, rfl⟩
  | cons f above ih =>
    change ∃ above', _ ∧ ((under above o).push f).write text = _
    cases f with
    | capture slot kind content =>
      exact ⟨.capture slot kind (content ++ text) :: above, rfl, rfl⟩
    | discard => exact ⟨.discard :: above, rfl, rfl⟩
    | through =>
      obtain ⟨above', hsame, hwrite⟩ := ih
      refine ⟨.through :: above', congrArg (true :: ·) hsame, ?_⟩
      rw [write_through, hwrite, List.all_cons, Frame.isThrough, Bool.true_and]
      rfl

/-- Which steps are felt depends on what the frames on top let through, not on what they hold. -/
theorem surface_congr {above above' : List Frame}
    (h : above'.map (·.isThrough) = above.map (·.isThrough)) (steps : List Step) :
    surface above' steps = surface above steps := by
  induction steps generalizing above above' with
  | nil => rfl
  | cons step steps ih =>
    cases step with
    | write text =>
      have hall : above'.all (·.isThrough) = above.all (·.isThrough) := by
        simpa [List.all_map] using congrArg (List.all · id) h
      rw [surface, surface, hall, ih h]
    | push f => exact ih (congrArg (f.isThrough :: ·) h)
    | pop =>
      refine ih ?_
      rw [List.map_tail, List.map_tail, h]
    | discardRoot => exact congrArg (.discardRoot :: ·) (ih h)

/-- Steps that close no more than the frames on top do below these what is felt there. -/
theorem run_under {steps : List Step} {n : Nat} (above : List Frame) (o : Output)
    (h : openAfter above.length steps = some n) :
    ∃ above', above'.length = n ∧ (under above o).run steps =
      under above' (o.run (surface above steps)) := by
  induction steps generalizing above o with
  | nil => exact ⟨above, Option.some.inj h, rfl⟩
  | cons step steps ih =>
    cases step with
    | write text =>
      obtain ⟨above', hsame, hwrite⟩ := write_under text above o
      have hlength : above'.length = above.length := by simpa using congrArg List.length hsame
      obtain ⟨above'', hn, hrun⟩ :=
        ih above' (if above.all (·.isThrough) then o.write text else o) (hlength ▸ h)
      refine ⟨above'', hn, ?_⟩
      change Output.run ((under above o).write text) steps = _
      rw [hwrite, hrun, surface_congr hsame, surface]
      split <;> rfl
    | push f => exact ih (f :: above) o h
    | pop =>
      cases above with
      | nil => cases h
      | cons f above => exact ih above o h
    | discardRoot => exact ih above o.discardRoot h

/-- **Steps that match do no more than what is felt below the blocks that they open.** -/
theorem run_matched {steps : List Step} (h : Matched steps) (o : Output) :
    o.run steps = o.run (surface [] steps) := by
  obtain ⟨above, hlength, hrun⟩ := run_under [] o h
  rw [List.eq_nil_of_length_eq_zero hlength] at hrun
  exact hrun

/-! ## What is felt by a frame -/

/-- Whether a step opens and closes nothing. -/
def Step.isFlat : Step → Bool
  | .write _ | .discardRoot => true
  | _ => false

theorem isFlat_of_mem_surface {step : Step} (above : List Frame) {steps : List Step}
    (h : step ∈ surface above steps) : step.isFlat = true := by
  induction steps generalizing above with
  | nil => cases h
  | cons first steps ih =>
    cases first with
    | write text =>
      rw [surface] at h
      split at h
      · rcases List.mem_cons.1 h with rfl | h
        · rfl
        · exact ih above h
      · exact ih above h
    | push f => exact ih (f :: above) h
    | pop => exact ih above.tail h
    | discardRoot =>
      rcases List.mem_cons.1 h with rfl | h
      · rfl
      · exact ih above h

theorem discardRoot_mem_surface (above : List Frame) (steps : List Step) :
    Step.discardRoot ∈ surface above steps ↔ Step.discardRoot ∈ steps := by
  induction steps generalizing above with
  | nil => rfl
  | cons step steps ih =>
    cases step with
    | write text =>
      rw [surface]
      split
      · simp [ih]
      · simp [ih]
    | push f => simp [surface, ih]
    | pop => simp [surface, ih]
    | discardRoot => simp [surface]

/-- The output, with the text outside of all blocks dropped from now on if one of the steps says so. -/
def dropping (steps : List Step) (o : Output) : Output :=
  { o with discardsRoot := o.discardsRoot || decide (Step.discardRoot ∈ steps) }

theorem dropping_cons (step : Step) (steps : List Step) (o : Output) :
    (o.dropping [step]).dropping steps = o.dropping (step :: steps) := by
  simp [dropping, Bool.or_assoc]

/-- A frame gets what is written, and the output below it feels a step only if the frame lets text
through, except for the dropping. -/
theorem apply_push {step : Step} (h : step.isFlat = true) (o : Output) (f : Frame) :
    step.apply (o.push f) =
      (if f.isThrough then step.apply o else o.dropping [step]).push (f.add step.text) := by
  cases step with
  | push g => cases h
  | pop => cases h
  | write text =>
    have hdropping : o.dropping [.write text] = o := by simp [dropping]
    cases f with
    | capture slot kind content =>
      change _ = (o.dropping [.write text]).push _
      rw [hdropping]
      rfl
    | discard =>
      change _ = (o.dropping [.write text]).push _
      rw [hdropping]
      rfl
    | through => exact write_through text
  | discardRoot =>
    have hdropping : o.dropping [.discardRoot] = o.discardRoot := by simp [dropping, discardRoot]
    rw [hdropping]
    cases f with
    | capture slot kind content =>
      simp only [Frame.add, Step.text, String.append_empty]
      rfl
    | discard => rfl
    | through => rfl

theorem run_push {steps : List Step} (h : ∀ step ∈ steps, step.isFlat = true) (o : Output)
    (f : Frame) :
    (o.push f).run steps = (if f.isThrough then o.run steps else o.dropping steps).push
      (f.add (String.join (steps.map Step.text))) := by
  induction steps generalizing o f with
  | nil =>
    have hdropping : o.dropping [] = o := by simp [dropping]
    rw [hdropping, List.map_nil, String.join_nil, Frame.add_empty]
    split <;> rfl
  | cons step steps ih =>
    obtain ⟨hstep, hsteps⟩ := List.forall_mem_cons.1 h
    change Output.run (step.apply (o.push f)) steps = _
    rw [apply_push hstep, ih hsteps, Frame.isThrough_add, Frame.add_add, List.map_cons,
      String.join_cons]
    split
    · rfl
    · rw [dropping_cons]

/-- **A frame is found again.** If blocks are opened and closed in the manner of brackets on top of a
frame, it is the frame that is closed next. One that catches text has caught what no other one on top
has kept, and below a frame that keeps text nothing has changed, but for the dropping of the text
outside of all blocks. Below a frame that lets text through all is as if it had not been there. An
output without frames has none to close. -/
theorem frame_faithful {steps : List Step} (h : Matched steps) (o : Output) (f : Frame) :
    ((o.push f).run steps).pop = (match f with
      | .capture slot kind content =>
        (some (.capture slot kind (content ++ caught steps)), o.dropping steps)
      | .discard => (some .discard, o.dropping steps)
      | .through => (some .through, o.run steps)) ∧
    ∀ o' : Output, o'.frames = [] → o'.pop = (none, o') := by
  have hrun : (o.push f).run steps =
      (if f.isThrough then o.run steps else o.dropping steps).push (f.add (caught steps)) := by
    have hdropping : o.dropping (surface [] steps) = o.dropping steps := by
      simp [dropping, discardRoot_mem_surface]
    rw [run_matched h, run_push fun _ => isFlat_of_mem_surface [], ← run_matched h o, hdropping]
    rfl
  refine ⟨?_, fun o' ho' => ?_⟩
  · rw [hrun]
    cases f with
    | capture slot kind content => rfl
    | discard => rfl
    | through => rfl
  · unfold pop
    rw [ho']

/-- Steps on top of a block: two blocks inside of one another, the inner one dropped, and one that
catches a text of its own. -/
def nestedSteps : List Step :=
  [.write "b", .push .through, .write "c", .push .discard, .write "d", .pop, .discardRoot, .pop,
    .push (.capture "y" .js ""), .write "z", .pop, .write "e"]

theorem frame_faithful_nestedSteps : Matched nestedSteps ∧
    (((Output.mk "r" false [.capture "s" .css "q"]).push (.capture "x" .html "a")).run
      nestedSteps).pop =
      (some (.capture "x" .html "abce"), ⟨"r", true, [.capture "s" .css "q"]⟩) :=
  ⟨by decide, (frame_faithful (by decide) _ _).1.trans (by decide)⟩

end Output

end Stencil
