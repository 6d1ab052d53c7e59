import Stencil.Proofs.Delimited.Recording
import Stencil.Proofs.Template.Faults

/-!
# The faults of a delimited source

What is wrong with a delimited source is told with the line of its action, except for an `end` that
ends nothing: that one has no line.

* `ActionAt` says where an action stands in a source, and `Says` what is read of its statement.
* `Segment.scan_placed` says that the actions of a scanned source stand at their lines.
* `compile_placed` is the run over the segments, in open frames that have lines; `closeFrame_placed`
  and `elseFrame_placed` are its steps. `parse_located` concludes for the source of a template.
-/

namespace Stencil.Delimited

/-! ## The actions of a source -/

/-- An action with this statement stands in the source, and it opens on this line. -/
def ActionAt (d : Delimiters) (source statement : List Char) (line : Nat) : Prop :=
  ∃ before inner rest, source = before ++ d.opening ++ inner ++ d.closing ++ rest ∧
    line = 1 + Text.lineFeeds before ∧ statement = Text.trim (trimMarks inner).1

theorem ActionAt.line {d : Delimiters} {source statement : List Char} {line : Nat}
    (h : ActionAt d source statement line) : 1 ≤ line ∧ line ≤ 1 + Text.lineFeeds source := by
  obtain ⟨before, inner, rest, rfl, rfl, -⟩ := h
  simp only [Text.lineFeeds_append]
  omega

/-- What is read of the statement of an action. -/
inductive Says (statement : List Char) : List Char → Prop where
  | whole : Says statement statement
  /-- The subject of a branch. -/
  | branch {b : Branch} {subject : List Char} : Keyword.of statement = .branch b subject →
    Says statement subject
  /-- The name of a definition. -/
  | define {subject : List Char} : Keyword.of statement = .define subject → Says statement subject
  /-- The subject of the branch that an `else` goes on with. -/
  | clause {clause : List Char} {b : Branch} {subject : List Char} :
    Keyword.of statement = .otherwise clause → chained? clause = some (b, subject) →
    Says statement subject

namespace Segment

variable {d : Delimiters} {s before t inner rest : List Char}

/-- The next action is on a line of the source. -/
theorem openingLine_le (hopening : Text.cut? d.opening s = some (before, t)) (done : List Char) :
    1 ≤ 1 + Text.lineFeeds done + Text.lineFeeds before ∧
      1 + Text.lineFeeds done + Text.lineFeeds before ≤ 1 + Text.lineFeeds (done ++ s) := by
  rw [Text.cut?_eq_append hopening]
  simp only [Text.lineFeeds_append]
  omega

/-- The next action with what stands before and behind it. -/
theorem eq_append_action (hopening : Text.cut? d.opening s = some (before, t))
    (hclosing : Text.cut? d.closing t = some (inner, rest)) (done : List Char) :
    done ++ s = done ++ before ++ d.opening ++ inner ++ d.closing ++ rest := by
  rw [Text.cut?_eq_append hopening, Text.cut?_eq_append hclosing]
  simp only [List.append_assoc]

theorem lineFeeds_action (d : Delimiters) (done before inner : List Char) :
    1 + Text.lineFeeds done + Text.lineFeeds before +
        Text.lineFeeds (d.opening ++ inner ++ d.closing) =
      1 + Text.lineFeeds (done ++ before ++ d.opening ++ inner ++ d.closing) := by
  simp only [Text.lineFeeds_append]
  omega

/-- **Where a source is split into segments, the actions stand at their lines**, and where it cannot be
split the line is one of the source. -/
theorem scan_placed (d : Delimiters) (S : Nat → List Char → Prop) {source : List Char} (trimmed : Bool)
    (line : Nat) (s : List Char) : ∀ done, source = done ++ s → line = 1 + Text.lineFeeds done →
    Ends (fun segments => ∀ statement line, .action statement line ∈ segments →
        ActionAt d source statement line)
      (Fault.At (fun line => 1 ≤ line ∧ line ≤ 1 + Text.lineFeeds source) S)
      (scan d trimmed line s) := by
  fun_induction scan d trimmed line s with
  | case1 =>
    rintro done rfl rfl statement line haction
    exact absurd haction (action_notMem_ofText _ _ _)
  | case2 trimmed line s before t hopening =>
    rintro done rfl rfl
    exact .ofLine (openingLine_le hopening done) _
  | case3 trimmed line s _ before t hopening _ inner rest hclosing _ _ marked first last hmarks text
      statement _ _ _ ih =>
    rintro done rfl rfl
    refine (ih _ (eq_append_action hopening hclosing done) (lineFeeds_action ..)).bind
      fun segments hsegments statement line haction => ?_
    simp only [List.mem_append, action_notMem_ofText, false_or] at haction
    exact hsegments statement line haction
  | case4 trimmed line s before t hopening =>
    rintro done rfl rfl
    exact .ofLine (openingLine_le hopening done) _
  | case5 trimmed line s _ before t hopening _ inner rest hclosing _ _ marked first last hmarks text
      statement _ _ ih =>
    rintro done rfl rfl
    have hsource := eq_append_action hopening hclosing done
    refine (ih _ hsource (lineFeeds_action ..)).bind fun segments hsegments said line haction => ?_
    simp only [List.mem_append, action_notMem_ofText, false_or, List.mem_cons, action.injEq] at haction
    rcases haction with ⟨rfl, rfl⟩ | haction
    · refine ⟨done ++ before, inner, rest, hsource, ?_, by rw [hmarks]⟩
      rw [Text.lineFeeds_append]
      exact Nat.add_assoc ..
    · exact hsegments said line haction

end Segment

/-! ## Open frames -/

/-- Whether a frame has an `end` of its own. A chained branch ends with the one around it. -/
def Frame.ownsEnd (f : Frame) : Bool :=
  match f.construct with
  | .branch _ _ chained _ => !chained
  | .define .. => true

/-- With this many constructs open, one of the segments is an `end` that ends nothing. -/
def EndsNothing : Nat → List Segment → Prop
  | _, [] => False
  | n, .text _ :: segments => EndsNothing n segments
  | n, .action statement _ :: segments =>
    match Keyword.of statement, n with
    | .finish, 0 => True
    | .finish, n + 1 => EndsNothing n segments
    | .branch .., n | .define _, n => EndsNothing (n + 1) segments
    | .otherwise _, n | .action, n => EndsNothing n segments

/-- A fault with a line that has `W`, or, only if `R`, the one of an `end` that ends nothing: this one has
no line. -/
def Told (W : Nat → Prop) (S : Nat → List Char → Prop) (R : Prop) (f : Fault) : Prop :=
  f.At W S ∨ f = { cause := .strayEnd } ∧ R

section

variable {W : Nat → Prop} {S : Nat → List Char → Prop} {R : Prop} {α : Type} {P : α → Prop}
  {frames : List Frame} {line : Nat}

theorem Told.mono {R' : Prop} {f : Fault} (h : Told W S R f) (hR : R → R') : Told W S R' f :=
  h.imp_right fun ⟨hf, h⟩ => ⟨hf, hR h⟩

theorem ends_told {act : Build α} (h : Build.Ends P (Fault.At W S) act) :
    Build.Ends P (Told W S R) act := h.mono (fun _ h => h) fun _ => .inl

theorem ends_fail (hline : W line) (c : Cause) : Build.Ends P (Told W S R) (fail line c) :=
  .throw (.inl (.ofLine hline c))

theorem ends_openFrame (construct : Construct) (line : Nat) :
    Build.Ends (fun f => f.construct = construct ∧ f.line = line) (Told W S R)
      (openFrame construct line) :=
  .getState fun _ => .seq (.modifyState _) fun _ => .pure ⟨rfl, rfl⟩

/-- An `end` ends one frame that has an `end` of its own, with those chained to it, unless there is
none. -/
theorem closeFrame_placed (hframes : ∀ f ∈ frames, W f.line)
    (hnone : frames.countP Frame.ownsEnd = 0 → R) :
    Build.Ends
      (fun out => (∀ f ∈ out.1, W f.line) ∧
        frames.countP Frame.ownsEnd = out.1.countP Frame.ownsEnd + 1)
      (Told W S R) (closeFrame frames) := by
  induction frames with
  | nil => exact .throw (.inr ⟨rfl, hnone rfl⟩)
  | cons f fs ih =>
    obtain ⟨-, hfs⟩ := List.forall_mem_cons.1 hframes
    obtain ⟨construct, line, outer⟩ := f
    refine .getState fun b => ?_
    cases construct with
    | branch b p chained body =>
      refine .seq (.modifyState _) fun _ => ?_
      cases chained with
      | true => exact ih hfs hnone
      | false => exact .pure ⟨hfs, List.countP_cons_of_pos rfl⟩
    | define name context =>
      exact .seq (.modifyState _) fun _ => .pure ⟨hfs, List.countP_cons_of_pos rfl⟩

/-- An `else` opens at most one frame, at its own line, and that one has no `end` of its own. -/
theorem elseFrame_placed {rest : List Char} (hline : W line)
    (hsubject : ∀ b subject, chained? rest = some (b, subject) → S line subject)
    (hframes : ∀ f ∈ frames, W f.line) :
    Build.Ends
      (fun fs => (∀ f ∈ fs, W f.line) ∧ frames.countP Frame.ownsEnd = fs.countP Frame.ownsEnd)
      (Told W S R) (elseFrame rest line frames) := by
  cases frames with
  | nil => exact ends_fail hline _
  | cons f fs =>
    obtain ⟨hf, hfs⟩ := List.forall_mem_cons.1 hframes
    obtain ⟨construct, start, outer⟩ := f
    match construct with
    | .define _ _ => exact ends_fail hline _
    | .branch _ _ _ (some _) => exact ends_fail hline _
    | .branch b p chained none =>
      refine .getState fun b => ?_
      dsimp only
      split
      · exact .seq (.modifyState _) fun _ => .pure ⟨List.forall_mem_cons.2 ⟨hf, hfs⟩, rfl⟩
      · split
        · exact ends_fail hline _
        · next b subject hchained =>
          refine .seq (ends_told (.pipeline hline (hsubject _ _ hchained))) fun p => ?_
          refine .seq (.modifyState _) fun _ => ?_
          refine (ends_openFrame _ line).bind fun f' hf' => .pure ⟨?_, ?_⟩
          · exact List.forall_mem_cons.2 ⟨hf'.2 ▸ hline, List.forall_mem_cons.2 ⟨hf, hfs⟩⟩
          · have hchained : f'.ownsEnd = false := by
              unfold Frame.ownsEnd
              rw [hf'.1]
              rfl
            rw [List.countP_cons_of_neg (Bool.eq_false_iff.1 hchained)]
            rfl

/-! ## Sources -/

/-- The actions stand at lines that have `W`, and what is read of them has `S` there. -/
def ActionsPlaced (W : Nat → Prop) (S : Nat → List Char → Prop) (segments : List Segment) : Prop :=
  ∀ statement line, .action statement line ∈ segments →
    W line ∧ ∀ said, Says statement said → S line said

/-- In open frames that have lines, what is wrong is told with a line, except for an `end` that ends
none of the frames. -/
theorem compile_placed {segments : List Segment} (hactions : ActionsPlaced W S segments) :
    ∀ {frames : List Frame} (done : List Definition), (∀ f ∈ frames, W f.line) →
      Build.Fails (Told W S (EndsNothing (frames.countP Frame.ownsEnd) segments))
        (compile frames done segments) := by
  induction segments with
  | nil =>
    intro frames done hframes
    cases frames with
    | nil => exact .pure trivial
    | cons f fs => exact ends_fail (hframes f List.mem_cons_self) _
  | cons segment segments ih =>
    intro frames done hframes
    replace ih := fun {frames} => @ih (fun statement line h =>
      hactions statement line (List.mem_cons_of_mem _ h)) frames
    cases segment with
    | text s => exact .seq (.text _) fun _ => ih done hframes
    | action statement line =>
      obtain ⟨hline, hsaid⟩ := hactions statement line List.mem_cons_self
      -- the number of open frames is read off in step with the segments
      have hbehind : ∀ {frames'} (done : List Definition), (∀ f ∈ frames', W f.line) →
          (EndsNothing (frames'.countP Frame.ownsEnd) segments →
            EndsNothing (frames.countP Frame.ownsEnd) (.action statement line :: segments)) →
          Build.Fails (Told W S (EndsNothing (frames.countP Frame.ownsEnd)
            (.action statement line :: segments))) (compile frames' done segments) :=
        fun done hframes' hcount => (ih done hframes').mono (fun _ _ => trivial) fun _ h =>
          h.mono hcount
      rw [compile]
      split
      · next hkeyword =>
        refine (closeFrame_placed hframes fun hnone => ?_).bind fun out hout =>
          hbehind _ hout.1 fun h => ?_
        · simp only [EndsNothing, hkeyword, hnone]
        · simpa only [EndsNothing, hkeyword, hout.2] using h
      · next clause hkeyword =>
        have hsubject := fun b subject h => hsaid subject (.clause hkeyword (b := b) h)
        refine (elseFrame_placed hline hsubject hframes).bind fun frames' hframes' =>
          hbehind done hframes'.1 fun h => ?_
        simpa only [EndsNothing, hkeyword, hframes'.2] using h
      · next b subject hkeyword =>
        refine .seq (ends_told (.pipeline hline (hsaid _ (.branch hkeyword)))) fun p => ?_
        refine (ends_openFrame _ line).bind fun f hf => hbehind done ?_ fun h => ?_
        · exact List.forall_mem_cons.2 ⟨hf.2 ▸ hline, hframes⟩
        · rw [List.countP_cons_of_pos (by simp [Frame.ownsEnd, hf.1])] at h
          simpa only [EndsNothing, hkeyword] using h
      · next subject hkeyword =>
        refine .seq (ends_told (.pipeline hline (hsaid _ (.define hkeyword)))) fun p => ?_
        split
        · exact ends_fail hline _
        · refine .getState fun b => (ends_openFrame _ line).bind fun f hf => ?_
          refine .seq (.modifyState _) fun _ => hbehind done ?_ fun h => ?_
          · exact List.forall_mem_cons.2 ⟨hf.2 ▸ hline, hframes⟩
          · rw [List.countP_cons_of_pos (by simp [Frame.ownsEnd, hf.1])] at h
            simpa only [EndsNothing, hkeyword] using h
      · next hkeyword =>
        refine .seq (ends_told (.action hline (hsaid _ .whole))) fun _ => hbehind done hframes ?_
        intro h
        simpa only [EndsNothing, hkeyword] using h

end

/-- A statement is read of an action of a source, which opens on this line. -/
def ComesFrom (d : Delimiters) (source : List Char) (line : Nat) (said : List Char) : Prop :=
  ∃ segments statement, Segment.ofSource d source = .ok segments ∧
    .action statement line ∈ segments ∧ ActionAt d source statement line ∧ Says statement said

/-- A source has an `end` that ends nothing. -/
def HasStrayEnd (d : Delimiters) (source : List Char) : Prop :=
  ∃ segments, Segment.ofSource d source = .ok segments ∧ EndsNothing 0 segments

theorem compileSource_placed (s : Settings) (source : List Char) :
    Build.Fails (Told (fun line => 1 ≤ line ∧ line ≤ 1 + Text.lineFeeds source)
      (ComesFrom s.delimiters source) (HasStrayEnd s.delimiters source)) (compileSource s source) := by
  have hscan : Ends _ _ (Segment.ofSource s.delimiters source) :=
    Segment.scan_placed s.delimiters (ComesFrom s.delimiters source) false 1 source [] rfl rfl
  unfold compileSource
  cases hsegments : Segment.ofSource s.delimiters source with
  | error f =>
    rw [hsegments] at hscan
    exact .throw (.inl hscan)
  | ok segments =>
    rw [hsegments] at hscan
    have hactions : ActionsPlaced (fun line => 1 ≤ line ∧ line ≤ 1 + Text.lineFeeds source)
        (ComesFrom s.delimiters source) segments := fun statement line haction =>
      have hat := hscan statement line haction
      ⟨hat.line, fun said hsaid => ⟨segments, statement, hsegments, haction, hat, hsaid⟩⟩
    have hnone : ∀ f ∈ ([] : List Frame), 1 ≤ f.line ∧ f.line ≤ 1 + Text.lineFeeds source :=
      fun f hf => absurd hf List.not_mem_nil
    exact (compile_placed hactions [] hnone).mono (fun _ h => h) fun f hf =>
      hf.mono fun h => ⟨segments, hsegments, h⟩

/-- **What is wrong with a delimited source is told with a line of the source**, and with the line of
the action from which the statement comes; only an `end` that ends nothing is told without a line. -/
theorem parse_located {s : Settings} {name source : String} {f : Fault}
    (h : (parse s name source).1 = .error f) :
    f.Located name (fun line => 1 ≤ line ∧ line ≤ 1 + Text.lineFeeds source.toList)
        (ComesFrom s.delimiters source.toList) ∨
      f = { cause := .strayEnd, template := some name } ∧
        HasStrayEnd s.delimiters source.toList := by
  have hcompile := compileSource_placed s source.toList {}
  unfold parse EStateM.run at h
  cases he : compileSource s source.toList {} with
  | ok definitions b =>
    rw [he] at h
    cases h
  | error f' b =>
    rw [he] at h hcompile
    cases h
    rcases hcompile with hat | ⟨rfl, hstray⟩
    · exact .inl (hat.located name)
    · exact .inr ⟨rfl, hstray⟩

end Stencil.Delimited
