import Stencil.Delimited.Template
import Stencil.Proofs.Html.Document

/-!
# The contexts that a delimited source records

The builder follows the context over a source from its start to its end, through all that is open. In
a source without comments and definitions its texts stay apart, so every action holds the context at
which it stands in document order.

* `Segment.statements` lists the statements of a source; `Segment.alternate_of_scan` says that two
  texts have one of them between them, unless it is a comment.
* `Follows` is the invariant of a builder inside open frames. `closeFrame_follows`,
  `elseFrame_follows` and `openFrame_follows` are its steps, `compile_follows` is the run.
* `parse_eq_ok` says what the templates of an accepted source are, and `parse_recorded` concludes for a
  source with one template.
-/

namespace Stencil

/-- A computation after another one succeeds if both do. -/
theorem Build.bind_eq_ok {α β : Type} {act : Build α} {k : α → Build β} {b b' : Builder} {y : β} :
    (act >>= k) b = .ok y b' ↔ ∃ x b₁, act b = .ok x b₁ ∧ k x b₁ = .ok y b' := by
  change EStateM.bind act k b = .ok y b' ↔ _
  unfold EStateM.bind
  cases act b with
  | ok x b₁ => exact ⟨fun h => ⟨x, b₁, rfl, h⟩, fun ⟨_, _, heq, h⟩ => by cases heq; exact h⟩
  | error f b₁ => exact ⟨fun h => (nomatch h), fun ⟨_, _, heq, _⟩ => (nomatch heq)⟩

namespace Delimited

/-! ## Texts and statements -/

namespace Segment

/-- The statements between the delimiters of a source, with those that are comments. -/
def statements (d : Delimiters) (s : List Char) : List (List Char) :=
  match h : Text.cut? d.opening s with
  | none => []
  | some (_, t) =>
    match h' : Text.cut? d.closing t with
    | none => []
    | some (inner, rest) =>
      have := Text.cut?_length_lt d.opening_ne_nil h
      have := Text.cut?_length_lt d.closing_ne_nil h'
      Text.trim (trimMarks inner).1 :: statements d rest
  termination_by s.length

/-- No two texts are next to each other, and none comes first right behind a text. -/
def Alternate (behindText : Bool) : List Segment → Prop
  | [] => True
  | .text _ :: segments => behindText = false ∧ Alternate true segments
  | .action .. :: segments => Alternate false segments

theorem alternate_ofText (s : List Char) : Alternate false (ofText s) := by
  unfold ofText
  split
  · trivial
  · exact ⟨rfl, trivial⟩

theorem alternate_ofText_action (s statement : List Char) (line : Nat) {segments : List Segment}
    (h : Alternate false segments) : Alternate false (ofText s ++ .action statement line :: segments) := by
  unfold ofText
  split
  · exact h
  · exact ⟨rfl, h⟩

/-- A text holds no actions. -/
@[simp] theorem action_notMem_ofText (s statement : List Char) (line : Nat) :
    Segment.action statement line ∉ ofText s := by
  unfold ofText
  split <;> simp

/-- **In a source without comments texts and actions alternate**, and the actions are its
statements. -/
theorem alternate_of_scan (d : Delimiters) (s : List Char) : ∀ (trimmed : Bool) (line : Nat)
    (segments : List Segment), (∀ statement ∈ statements d s, opensComment statement = false) →
      scan d trimmed line s = .ok segments →
      Alternate false segments ∧
        ∀ statement line, .action statement line ∈ segments → statement ∈ statements d s := by
  fun_induction statements d s with
  | case1 s h =>
    intro trimmed line segments _ hscan
    rw [scan] at hscan
    split at hscan
    · cases hscan
      exact ⟨alternate_ofText _, fun statement line hmem => absurd hmem (action_notMem_ofText _ _ _)⟩
    · next heq => simp [h] at heq
  | case2 s before t h h' =>
    intro trimmed line segments _ hscan
    rw [scan] at hscan
    split at hscan
    · next heq => simp [h] at heq
    · next before' t' heq =>
      obtain ⟨rfl, rfl⟩ : before = before' ∧ t = t' := by simpa [h] using heq
      split at hscan
      · cases hscan
      · next heq' => simp [h'] at heq'
  | case3 s before t h inner rest h' _ _ ih =>
    intro trimmed line segments hcomment hscan
    rw [List.forall_mem_cons] at hcomment
    rw [scan] at hscan
    split at hscan
    · next heq => simp [h] at heq
    · next before' t' heq =>
      obtain ⟨rfl, rfl⟩ : before = before' ∧ t = t' := by simpa [h] using heq
      split at hscan
      · next heq' => simp [h'] at heq'
      · next inner' rest' heq' =>
        obtain ⟨rfl, rfl⟩ : inner = inner' ∧ rest = rest' := by simpa [h'] using heq'
        rcases hmarks : trimMarks inner with ⟨marked, first, last⟩
        rw [hmarks] at hcomment
        simp only [hmarks, hcomment.1] at hscan
        rw [if_neg Bool.false_ne_true] at hscan
        cases hrest : scan d last (line + Text.lineFeeds before +
            Text.lineFeeds (d.opening ++ inner ++ d.closing)) rest with
        | error f =>
          rw [hrest] at hscan
          cases hscan
        | ok tail =>
          rw [hrest] at hscan
          cases hscan
          obtain ⟨halternate, hmem⟩ := ih _ _ _ hcomment.2 hrest
          refine ⟨alternate_ofText_action _ _ _ halternate, fun statement l hm => ?_⟩
          simp only [List.mem_append, action_notMem_ofText, false_or, List.mem_cons, action.injEq] at hm
          rcases hm with ⟨rfl, -⟩ | hm
          · exact List.mem_cons_self
          · exact List.mem_cons_of_mem _ (hmem statement l hm)

end Segment

/-! ## Open frames -/

open Node

/-- The context at the start of the nodes that are being written. -/
def startContext : List Frame → HtmlContext
  | [] => .body
  | f :: fs =>
    match f.construct with
    | .branch _ _ _ (some body) =>
      contextAfterAll (contextAfterAll (startContext fs) f.outer.reverse) body
    | _ => contextAfterAll (startContext fs) f.outer.reverse

/-- The frames are those of branches, and the actions around and in them hold their contexts. -/
def FramesRecorded : List Frame → Prop
  | [] => True
  | f :: fs =>
    RecordedAll (startContext fs) f.outer.reverse ∧ FramesRecorded fs ∧
      match f.construct with
      | .branch _ _ _ none => True
      | .branch _ _ _ (some body) =>
        RecordedAll (contextAfterAll (startContext fs) f.outer.reverse) body
      | .define .. => False

/-- The builder has the context at which it stands, and so have the actions written so far. -/
structure Follows (frames : List Frame) (b : Builder) : Prop where
  context : b.context = contextAfterAll (startContext frames) b.nodes
  recorded : RecordedAll (startContext frames) b.nodes
  frames : FramesRecorded frames

/-- The last node that was written is no text, so text that comes now stays apart. -/
def Closed (b : Builder) : Prop := ∀ s ns, b.emitted ≠ .text s :: ns

theorem contextAfter_node (branch : Branch) (line : Nat) (p : Pipeline) (body otherwise : List Node)
    (c : HtmlContext) : contextAfter c (branch.node line p body otherwise) =
      contextAfterAll (contextAfterAll c body) otherwise := by
  cases branch <;> rfl

theorem recorded_node {branch : Branch} {line : Nat} {p : Pipeline} {body otherwise : List Node}
    {c : HtmlContext} (hbody : RecordedAll c body)
    (hother : RecordedAll (contextAfterAll c body) otherwise) :
    Recorded c (branch.node line p body otherwise) := by
  cases branch <;> exact ⟨hbody, hother⟩

/-- A node that is put behind some others. -/
theorem Follows.push {frames : List Frame} {outer : List Node} {n : Node} {b' : Builder}
    (houter : RecordedAll (startContext frames) outer.reverse)
    (hn : Recorded (contextAfterAll (startContext frames) outer.reverse) n)
    (hframes : FramesRecorded frames) (hemitted : b'.emitted = n :: outer)
    (hcontext : b'.context = contextAfter (contextAfterAll (startContext frames) outer.reverse) n) :
    Follows frames b' := by
  have hnodes : b'.nodes = outer.reverse ++ [n] := by
    rw [Builder.nodes, hemitted, List.reverse_cons]
  constructor
  · rw [hnodes, contextAfterAll_append, hcontext]
    rfl
  · rw [hnodes, recordedAll_append]
    exact ⟨houter, hn, trivial⟩
  · exact hframes

theorem Follows.text {frames : List Frame} {b : Builder} (h : Follows frames b) (hclosed : Closed b)
    (s : String) : Follows frames (b.text s) := by
  unfold Builder.text
  split
  · exact h
  · have hcontext : (b.context.feed s.toList) =
        contextAfter (contextAfterAll (startContext frames) b.emitted.reverse) (.text s) := by
      rw [h.context]
      rfl
    dsimp only
    split
    · next t ns heq => exact absurd heq (hclosed t ns)
    · exact .push (n := .text s) h.recorded trivial h.frames rfl hcontext

theorem openFrame_follows {frames : List Frame} {b b' : Builder} {f : Frame} (h : Follows frames b)
    {branch : Branch} {p : Pipeline} {chained : Bool} {line : Nat}
    (hopen : openFrame (.branch branch p chained none) line b = .ok f b') :
    Follows (f :: frames) b' ∧ Closed b' := by
  cases hopen
  exact ⟨⟨h.context, trivial, h.recorded, h.frames, trivial⟩, nofun⟩

theorem pipeline_eq_ok {statement : List Char} {line : Nat} {b b' : Builder} {p : Pipeline}
    (h : Build.pipeline statement line b = .ok p b') : parsePipeline statement = .ok p ∧ b' = b := by
  unfold Build.pipeline at h
  cases hp : parsePipeline statement with
  | ok q =>
    rw [hp] at h
    cases h
    exact ⟨rfl, rfl⟩
  | error c =>
    rw [hp] at h
    cases h

/-- The node of a statement holds the context that it is compiled in and leads to no other. -/
theorem actionNode_recorded {context : HtmlContext} {statement : List Char} {line : Nat} {n : Node}
    (h : Build.actionNode context statement line = .ok n) :
    Recorded context n ∧ contextAfter context n = context ∧ ∀ s, n ≠ .text s := by
  unfold Build.actionNode at h
  cases hcall : parseTemplateCall statement with
  | error c =>
    rw [hcall] at h
    cases h
  | ok call =>
    rw [hcall] at h
    cases call with
    | some call =>
      cases h
      exact ⟨trivial, rfl, nofun⟩
    | none =>
      cases hp : parsePipeline statement with
      | error c =>
        simp only [hp] at h
        cases h
      | ok p =>
        simp only [hp] at h
        cases h
        exact ⟨rfl, rfl, nofun⟩

theorem action_follows {frames : List Frame} {b b' : Builder} (h : Follows frames b)
    {statement : List Char} {line : Nat} (haction : Build.action statement line b = .ok ⟨⟩ b') :
    Follows frames b' ∧ Closed b' := by
  obtain ⟨_, _, hget, haction⟩ := Build.bind_eq_ok.mp haction
  cases hget
  cases hn : Build.actionNode b.context statement line with
  | error c =>
    rw [hn] at haction
    cases haction
  | ok n =>
    rw [hn] at haction
    cases haction
    obtain ⟨hrecorded, hafter, htext⟩ := actionNode_recorded hn
    rw [h.context] at hrecorded hafter
    refine ⟨.push h.recorded hrecorded h.frames rfl ?_, fun s ns heq => ?_⟩
    · exact h.context.trans hafter.symm
    · exact htext s (List.cons.inj heq).1

/-- The node of a branch whose last part holds the nodes `inner`. -/
def Branch.closed (branch : Branch) (line : Nat) (p : Pipeline) (inner : List Node) :
    Option (List Node) → Node
  | none => branch.node line p inner []
  | some body => branch.node line p body inner

theorem Branch.closed_ne_text (branch : Branch) (line : Nat) (p : Pipeline) (inner : List Node)
    (body : Option (List Node)) (s : String) : branch.closed line p inner body ≠ .text s := by
  cases body <;> cases branch <;> exact nofun

theorem closeFrame_branch (branch : Branch) (p : Pipeline) (chained : Bool)
    (body : Option (List Node)) (line : Nat) (outer : List Node) (fs : List Frame) (b : Builder) :
    closeFrame (⟨.branch branch p chained body, line, outer⟩ :: fs) b =
      (if chained then closeFrame fs else return (fs, none) : Build (List Frame × Option Definition))
        { b with emitted := branch.closed line p b.nodes body :: outer } := by
  rw [closeFrame]
  cases body <;> rfl

/-- Closing a branch puts its node behind the nodes around it. -/
theorem closeFrame_follows {frames : List Frame} : ∀ {b b' : Builder}
    {r : List Frame × Option Definition}, Follows frames b → closeFrame frames b = .ok r b' →
      Follows r.1 b' ∧ Closed b' ∧ r.2 = none := by
  induction frames with
  | nil =>
    intro b b' r _ hclose
    cases hclose
  | cons f fs ih =>
    intro b b' r h hclose
    obtain ⟨construct, line, outer⟩ := f
    obtain ⟨houter, hframes, hconstruct⟩ := h.frames
    have hcontext := h.context
    have hrecorded := h.recorded
    match construct with
    | .define _ _ => exact hconstruct.elim
    | .branch branch p chained body =>
      rw [closeFrame_branch] at hclose
      have hput : Follows fs { b with emitted := branch.closed line p b.nodes body :: outer } := by
        cases body with
        | none =>
          refine .push houter (recorded_node hrecorded (show RecordedAll _ [] from trivial)) hframes
            rfl ?_
          rw [Branch.closed, contextAfter_node]
          exact hcontext
        | some body =>
          refine .push houter (recorded_node hconstruct hrecorded) hframes rfl ?_
          rw [Branch.closed, contextAfter_node]
          exact hcontext
      cases chained with
      | true => exact ih hput hclose
      | false =>
        cases hclose
        refine ⟨hput, fun s ns heq => ?_, rfl⟩
        exact branch.closed_ne_text line p b.nodes body s (List.cons.inj heq).1

/-- The `else` part starts where the body ends. -/
theorem elseFrame_follows {frames frames' : List Frame} {b b' : Builder} (h : Follows frames b)
    {rest : List Char} {line : Nat} (helse : elseFrame rest line frames b = .ok frames' b') :
    Follows frames' b' ∧ Closed b' := by
  match frames with
  | [] => cases helse
  | ⟨construct, start, outer⟩ :: fs =>
    obtain ⟨houter, hframes, hconstruct⟩ := h.frames
    have hcontext := h.context
    have hrecorded := h.recorded
    match construct with
    | .define _ _ => exact hconstruct.elim
    | .branch _ _ _ (some _) => cases helse
    | .branch branch p chained none =>
      have hopen : Follows (⟨.branch branch p chained (some b.nodes), start, outer⟩ :: fs)
          { b with emitted := [] } :=
        ⟨hcontext, trivial, houter, hframes, hrecorded⟩
      unfold elseFrame at helse
      dsimp only at helse
      obtain ⟨b₀, b₁, hget, helse⟩ := Build.bind_eq_ok.1 helse
      cases hget
      cases hrest : rest.isEmpty with
      | true =>
        rw [hrest] at helse
        cases helse
        exact ⟨hopen, nofun⟩
      | false =>
        rw [hrest] at helse
        cases hchained : chained? rest with
        | none =>
          rw [hchained] at helse
          cases helse
        | some next =>
          rw [hchained] at helse
          obtain ⟨q, b₂, hq, hbranch⟩ := Build.bind_eq_ok.1 helse
          obtain ⟨-, rfl⟩ := pipeline_eq_ok hq
          obtain ⟨_, b₃, hmodify, helse⟩ := Build.bind_eq_ok.1 hbranch
          cases hmodify
          obtain ⟨f, b₄, hf, helse⟩ := Build.bind_eq_ok.1 helse
          cases helse
          exact openFrame_follows hopen hf

/-! ## Sources -/

/-- **A builder follows the context through a source** whose texts and actions alternate and which
defines no templates. -/
theorem compile_follows {segments : List Segment} : ∀ {frames : List Frame}
    {done definitions : List Definition} {b b' : Builder} {behindText : Bool},
    Segment.Alternate behindText segments → (behindText = false → Closed b) →
      (∀ statement line, .action statement line ∈ segments →
        ∀ rest, Keyword.of statement ≠ .define rest) →
      Follows frames b → compile frames done segments b = .ok definitions b' →
      Follows [] b' ∧ definitions = done.reverse := by
  induction segments with
  | nil =>
    intro frames done definitions b b' _ _ _ _ h hcompile
    cases frames with
    | nil =>
      cases hcompile
      exact ⟨h, rfl⟩
    | cons f fs => cases hcompile
  | cons segment segments ih =>
    intro frames done definitions b b' behindText halternate hclosed hdefine h hcompile
    have hrest : ∀ statement line, .action statement line ∈ segments →
        ∀ rest, Keyword.of statement ≠ .define rest :=
      fun statement line hmem => hdefine statement line (List.mem_cons_of_mem _ hmem)
    cases segment with
    | text s =>
      rw [compile] at hcompile
      obtain ⟨_, b₁, htext, hcompile⟩ := Build.bind_eq_ok.1 hcompile
      cases htext
      exact ih halternate.2 nofun hrest (h.text (hclosed halternate.1) _) hcompile
    | action statement line =>
      have halternate : Segment.Alternate false segments := halternate
      rw [compile] at hcompile
      cases hkeyword : Keyword.of statement with
      | finish =>
        rw [hkeyword] at hcompile
        dsimp only at hcompile
        obtain ⟨⟨fs, ended⟩, b₁, hclose, hcompile⟩ := Build.bind_eq_ok.1 hcompile
        obtain ⟨hfollows, hclosed, rfl⟩ := closeFrame_follows h hclose
        exact ih halternate (fun _ => hclosed) hrest hfollows hcompile
      | otherwise rest =>
        rw [hkeyword] at hcompile
        dsimp only at hcompile
        obtain ⟨fs, b₁, helse, hcompile⟩ := Build.bind_eq_ok.1 hcompile
        obtain ⟨hfollows, hclosed⟩ := elseFrame_follows h helse
        exact ih halternate (fun _ => hclosed) hrest hfollows hcompile
      | branch branch subject =>
        rw [hkeyword] at hcompile
        dsimp only at hcompile
        obtain ⟨p, b₁, hp, hbranch⟩ := Build.bind_eq_ok.1 hcompile
        obtain ⟨-, rfl⟩ := pipeline_eq_ok hp
        obtain ⟨f, b₂, hopen, hcompile⟩ := Build.bind_eq_ok.1 hbranch
        obtain ⟨hfollows, hclosed⟩ := openFrame_follows h hopen
        exact ih halternate (fun _ => hclosed) hrest hfollows hcompile
      | define subject => exact absurd hkeyword (hdefine statement line (by simp) subject)
      | action =>
        rw [hkeyword] at hcompile
        dsimp only at hcompile
        obtain ⟨_, b₁, haction, hcompile⟩ := Build.bind_eq_ok.1 hcompile
        obtain ⟨hfollows, hclosed⟩ := action_follows h haction
        exact ih halternate (fun _ => hclosed) hrest hfollows hcompile

/-- The template of a definition. -/
def Definition.template (d : Definition) : Template := { name := d.name, nodes := d.nodes }

/-- The templates by their names; of two with one name the later counts. -/
def byName (ts : List Template) : Table Template := Table.ofList (ts.map fun t => (t.name, t))

/-- A source that is accepted compiles, and its templates are kept by their names. -/
theorem parse_eq_ok {s : Settings} {name source : String} {templates : Table Template}
    (h : (parse s name source).1 = .ok templates) :
    ∃ segments ds b, Segment.ofSource s.delimiters source.toList = .ok segments ∧
      compile [] [] segments {} = .ok ds b ∧
      templates = byName ({ name, nodes := b.nodes } :: ds.map Definition.template) := by
  unfold parse compileSource EStateM.run at h
  cases hsegments : Segment.ofSource s.delimiters source.toList with
  | error f =>
    rw [hsegments] at h
    cases h
  | ok segments =>
    rw [hsegments] at h
    cases hrun : compile [] [] segments {} with
    | error f b =>
      simp only [hrun] at h
      cases h
    | ok ds b =>
      simp only [hrun] at h
      cases h
      refine ⟨segments, ds, b, rfl, hrun, ?_⟩
      simp [byName, Definition.template, Function.comp_def]

/-- The statements of a source are no comments and define no templates. -/
def Undivided (d : Delimiters) (source : List Char) : Prop :=
  ∀ statement ∈ Segment.statements d source,
    opensComment statement = false ∧ ∀ rest, Keyword.of statement ≠ .define rest

/-- **A source without comments and definitions has one template, whose actions hold the contexts at
which they stand.** -/
theorem parse_recorded {s : Settings} {name source : String} {templates : Table Template}
    (hsource : Undivided s.delimiters source.toList)
    (hparse : (parse s name source).1 = .ok templates) :
    ∃ nodes, templates = [(name, { name, nodes })] ∧ RecordedAll .body nodes := by
  obtain ⟨segments, ds, b, hsegments, hrun, rfl⟩ := parse_eq_ok hparse
  obtain ⟨halternate, hmem⟩ := Segment.alternate_of_scan s.delimiters source.toList false 1 segments
    (fun statement h => (hsource statement h).1) hsegments
  have hstart : Follows [] ({} : Builder) := ⟨rfl, trivial, trivial⟩
  have hclosed : Closed ({} : Builder) := fun _ _ heq => by cases heq
  obtain ⟨hfollows, rfl⟩ := compile_follows halternate (fun _ => hclosed)
    (fun statement line h => (hsource statement (hmem statement line h)).2) hstart hrun
  exact ⟨b.nodes, rfl, hfollows.recorded⟩

end Delimited

end Stencil
