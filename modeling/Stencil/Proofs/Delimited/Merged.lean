import Stencil.Proofs.Delimited.Balance
import Stencil.Proofs.Entries
import Stencil.Proofs.Template.Merged

/-!
# Merged text in delimited sources

The nodes of a delimited source are in normal form, those of its definitions included. A definition is no
node: the text behind it is merged with the text before it.

* `Frame.Normal` says that what an open frame keeps, the nodes before it and its body, is in normal form,
  and `Pending` that all frames and definitions are.
* `closeFrame_merges` and `elseFrame_merges` keep this, `step_merges` says so for a segment, and
  `normal_of_parse` concludes for the templates of a source.
-/

namespace Stencil.Delimited

open Build (Merges)

/-- A body that has ended is in normal form. -/
def Construct.Normal : Construct → Prop
  | .branch _ _ _ (some body) => Stencil.Normal body
  | .branch _ _ _ none | .define .. => True

/-- The nodes before an open frame are in normal form, and so is a body that has ended. -/
structure Frame.Normal (f : Frame) : Prop where
  outer : Stencil.Normal f.outer
  construct : f.construct.Normal

/-- What is kept beside the builder is in normal form. -/
structure Pending (frames : List Frame) (done : List Definition) : Prop where
  frames : ∀ f ∈ frames, f.Normal
  done : ∀ d ∈ done, Normal d.nodes

variable {frames : List Frame} {done : List Definition}

theorem normal_node (branch : Branch) (line : Nat) (p : Pipeline) {body otherwise ns : List Node}
    (h : Normal ns) (hbody : Normal body) (hother : Normal otherwise) :
    Normal (branch.node line p body otherwise :: ns) := by
  have hinside := merged_of_branch hbody hother
  cases branch <;> exact h.cons nofun hinside

/-! ## Frames -/

/-- What is written inside a new frame starts with nothing. -/
theorem openFrame_merges (construct : Construct) (line : Nat) (h : construct.Normal) :
    Merges Frame.Normal (openFrame construct line) :=
  .getState fun _ hb => .seq (.modifyState fun _ _ => .nil) fun _ => .pure ⟨hb, h⟩

/-- What an `end` closes becomes a node or a definition. -/
theorem closeFrame_merges (hframes : ∀ f ∈ frames, f.Normal) :
    Merges (fun r => (∀ f ∈ r.1, f.Normal) ∧ ∀ d ∈ r.2, Normal d.nodes) (closeFrame frames) := by
  induction frames with
  | nil => exact .throw _
  | cons f fs ih =>
    obtain ⟨hf, hfs⟩ := List.forall_mem_cons.1 hframes
    obtain ⟨construct, line, outer⟩ := f
    refine .getState fun b hb => ?_
    cases construct with
    | define name context =>
      refine .seq (.modifyState fun _ _ => hf.outer) fun _ => .pure ⟨hfs, ?_⟩
      rintro _ ⟨⟩
      exact hb.nodes
    | branch branch p chained body =>
      refine .seq (.modifyState fun _ _ => ?_) fun _ => ?_
      · cases body with
        | none => exact normal_node branch line p hf.outer hb.nodes .nil
        | some body => exact normal_node branch line p hf.outer hf.construct hb.nodes
      · cases chained with
        | true => exact ih hfs
        | false => exact .pure ⟨hfs, nofun⟩

/-- An `else` ends a body. -/
theorem elseFrame_merges {rest : List Char} {line : Nat} (hframes : ∀ f ∈ frames, f.Normal) :
    Merges (fun fs => ∀ f ∈ fs, f.Normal) (elseFrame rest line frames) := by
  cases frames with
  | nil => exact .throw _
  | cons f fs =>
    obtain ⟨hf, hfs⟩ := List.forall_mem_cons.1 hframes
    obtain ⟨construct, start, outer⟩ := f
    match construct with
    | .define _ _ => exact .throw _
    | .branch _ _ _ (some _) => exact .throw _
    | .branch branch p chained none =>
      refine .getState fun b hb => ?_
      have hfirst : Frame.Normal ⟨.branch branch p chained (some b.nodes), start, outer⟩ :=
        ⟨hf.outer, hb.nodes⟩
      have hframes := List.forall_mem_cons.2 ⟨hfirst, hfs⟩
      dsimp only
      split
      · exact .seq (.modifyState fun _ _ => .nil) fun _ => .pure hframes
      · split
        · exact .throw _
        · refine .seq (.pipeline _ _) fun p => .seq (.modifyState fun _ _ => .nil) fun _ => ?_
          exact (openFrame_merges (.branch _ p true none) line trivial).bind fun f hf =>
            .pure (List.forall_mem_cons.2 ⟨hf, hframes⟩)

/-! ## Sources -/

/-- **A segment keeps the normal form** of what is written and of what is kept beside it. -/
theorem step_merges (segment : Segment) (hpending : Pending frames done) :
    Merges (fun r => Pending r.1 r.2) (step frames done segment) := by
  have hopen : ∀ f : Frame, f.Normal → Pending (f :: frames) done := fun f hf =>
    ⟨List.forall_mem_cons.2 ⟨hf, hpending.frames⟩, hpending.done⟩
  cases segment with
  | text s => exact .seq (.text _) fun _ => .pure hpending
  | action statement line =>
    rw [step]
    split
    · refine (closeFrame_merges hpending.frames).bind fun r hr => ?_
      obtain ⟨hframes, hended⟩ := hr
      refine .pure ⟨hframes, fun d hd => ?_⟩
      rcases List.mem_append.1 hd with hd | hd
      · exact hended d (Option.mem_toList.1 hd)
      · exact hpending.done d hd
    · exact (elseFrame_merges hpending.frames).bind fun _ hframes => .pure ⟨hframes, hpending.done⟩
    · exact .seq (.pipeline _ _) fun p => (openFrame_merges (.branch _ p false none) line trivial).bind
        fun f hf => .pure (hopen f hf)
    · refine .seq (.pipeline _ _) fun _ => ?_
      split
      · exact .throw _
      · exact .getState fun b _ => (openFrame_merges (.define _ b.context) line trivial).bind fun f hf =>
          .seq (.modifyState fun _ h => h) fun _ => .pure (hopen f hf)
    · exact .seq (.action statement line) fun _ => .pure hpending

theorem compile_merges (segments : List Segment) (hpending : Pending frames done) :
    Merges (fun ds => ∀ d ∈ ds, Normal d.nodes) (compile frames done segments) := by
  induction segments generalizing frames done with
  | nil =>
    cases frames with
    | nil => exact .pure fun d hd => hpending.done d (List.mem_reverse.1 hd)
    | cons f fs => exact .throw _
  | cons segment segments ih =>
    rw [compile_cons]
    exact (step_merges segment hpending).bind fun r hr => ih hr

/-- The templates of a delimited source are in normal form. -/
theorem normal_of_parse {s : Settings} {name source : String} {ts : Table Template}
    (h : (parse s name source).1 = .ok ts) : ∀ e ∈ ts, Normal e.2.nodes := by
  obtain ⟨segments, ds, b, -, hrun, rfl⟩ := parse_eq_ok h
  have hpending : Pending [] [] := ⟨nofun, nofun⟩
  obtain ⟨hds, hb⟩ := compile_merges segments hpending _ _ _ hrun .nil
  intro e he
  obtain ⟨t, ht, rfl⟩ := List.mem_map.1 (Table.mem_ofList he)
  rcases List.mem_cons.1 ht with rfl | ht
  · exact hb.nodes
  · obtain ⟨d, hd, rfl⟩ := List.mem_map.1 ht
    exact hds d hd

end Stencil.Delimited
