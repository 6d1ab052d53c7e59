import Stencil.Proofs.Delimited.Balance
import Stencil.Proofs.Environment.Registration

/-!
# The definitions of a delimited source

A source is compiled to a template for itself and one for every definition in it. Each of them has what it
would have if its segments were a source of their own.

* `Extracts` takes the definitions out of the segments of a source, each without those inside of it, and
  `exists_extracts` says that this can be done where a source compiles.
* `Build.Quiet` says that a computation logs nothing, which is so for delimited sources.
* `compile_definition` compiles a definition, `step_keep` is the step for any other segment, and
  `compile_extracts` is the run over all of them.
* `Table.get?_ofList_iff` and `Table.length_ofList_iff` say what a table keeps of entries with one name.
* `templates_of_parse` concludes for the templates of a source: none is lost exactly if no two of them
  have one name.
-/

namespace Stencil

/-! ## Computations without a log -/

namespace Build

variable {α β : Type}

/-- A computation that succeeds logs nothing. -/
def Quiet (act : Build α) : Prop := ∀ b a b', act b = .ok a b' → b'.events = b.events

namespace Quiet

theorem pure (a : α) : Quiet (Pure.pure a : Build α) := fun _ _ _ h => by
  cases h
  rfl

theorem throw (f : Fault) : Quiet (MonadExcept.throw f : Build α) := fun _ _ _ h => nomatch h

theorem bind {act : Build α} {k : α → Build β} (h : Quiet act) (hk : ∀ a, Quiet (k a)) :
    Quiet (act >>= k) := by
  intro b c b' hrun
  obtain ⟨a, b₁, hact, hrun⟩ := bind_eq_ok.1 hrun
  exact (hk a b₁ c b' hrun).trans (h b a b₁ hact)

theorem getState {k : Builder → Build β} (hk : ∀ b, Quiet (k b)) :
    Quiet ((get : Build Builder) >>= k) := fun b c b' h => hk b b c b' h

theorem modifyState {f : Builder → Builder} (h : ∀ b, (f b).events = b.events) :
    Quiet (modify f : Build PUnit) := fun b _ _ hf => by
  cases hf
  exact h b

theorem text (s : String) : Quiet (Build.text s) := .modifyState fun b => by
  unfold Builder.text
  split
  · rfl
  · dsimp only
    split <;> rfl

theorem pipeline (statement : List Char) (line : Nat) : Quiet (Build.pipeline statement line) := by
  unfold Build.pipeline
  split
  · exact .pure _
  · exact .throw _

theorem action (statement : List Char) (line : Nat) : Quiet (Build.action statement line) := by
  refine .getState fun b => ?_
  split
  · exact .modifyState fun _ => rfl
  · exact .throw _

end Quiet

end Build

namespace Delimited

open Build (Quiet)

variable {frames : List Frame} {done ds : List Definition} {b b' : Builder}

theorem openFrame_quiet (construct : Construct) (line : Nat) : Quiet (openFrame construct line) :=
  .getState fun _ => .bind (.modifyState fun _ => rfl) fun _ => .pure _

theorem closeFrame_quiet : ∀ frames, Quiet (closeFrame frames)
  | [] => .throw _
  | ⟨construct, line, outer⟩ :: fs => by
    refine .getState fun b => ?_
    cases construct with
    | define name context => exact .bind (.modifyState fun _ => rfl) fun _ => .pure _
    | branch branch p chained body =>
      refine .bind (.modifyState fun _ => rfl) fun _ => ?_
      cases chained with
      | true => exact closeFrame_quiet fs
      | false => exact .pure _

theorem elseFrame_quiet (rest : List Char) (line : Nat) : ∀ frames, Quiet (elseFrame rest line frames)
  | [] => .throw _
  | ⟨construct, start, outer⟩ :: fs => by
    match construct with
    | .define _ _ => exact .throw _
    | .branch _ _ _ (some _) => exact .throw _
    | .branch branch p chained none =>
      refine .getState fun b => ?_
      dsimp only
      split
      · exact .bind (.modifyState fun _ => rfl) fun _ => .pure _
      · split
        · exact .throw _
        · exact .bind (.pipeline _ _) fun _ => .bind (.modifyState fun _ => rfl) fun _ =>
            .bind (openFrame_quiet _ _) fun _ => .pure _

theorem step_quiet (frames : List Frame) (done : List Definition) (segment : Segment) :
    Quiet (step frames done segment) := by
  cases segment with
  | text s => exact .bind (.text _) fun _ => .pure _
  | action statement line =>
    rw [step]
    split
    · exact .bind (closeFrame_quiet _) fun _ => .pure _
    · exact .bind (elseFrame_quiet _ _ _) fun _ => .pure _
    · exact .bind (.pipeline _ _) fun _ => .bind (openFrame_quiet _ _) fun _ => .pure _
    · refine .bind (.pipeline _ _) fun _ => ?_
      split
      · exact .throw _
      · exact .getState fun _ => .bind (openFrame_quiet _ _) fun _ =>
          .bind (.modifyState fun _ => rfl) fun _ => .pure _
    · exact .bind (.action _ _) fun _ => .pure _

/-- Compiling logs nothing. -/
theorem compile_quiet (segments : List Segment) :
    ∀ frames done, Quiet (compile frames done segments) := by
  induction segments with
  | nil =>
    intro frames done
    cases frames with
    | nil => exact .pure _
    | cons f fs => exact .throw _
  | cons segment segments ih =>
    intro frames done
    rw [compile_cons]
    exact .bind (step_quiet frames done segment) fun r => ih r.1 r.2

/-! ## Definitions taken out -/

/-- A part of a source that is a template of its own. -/
structure Excerpt where
  name : String
  segments : List Segment

/-- Taking the definitions out of some segments leaves `page`. Every definition is taken out of the
segments between its action and the `end` of that, and those inside of it come before it. -/
inductive Extracts : List Segment → List Segment → List Excerpt → Prop
  | nil : Extracts [] [] []
  | keep {segment : Segment} {segments page : List Segment} {es : List Excerpt}
    (hsegment : segment.definition? = none) (h : Extracts segments page es) :
    Extracts (segment :: segments) (segment :: page) es
  | define {opening closing : List Char} {line line' : Nat} {name : String}
    {body inner rest page : List Segment} {nested es : List Excerpt}
    (hopening : (Segment.action opening line).definition? = some name)
    (hbody : openAfter 0 body = some 0) (hclosing : Keyword.of closing = .finish)
    (hinner : Extracts body inner nested) (hrest : Extracts rest page es) :
    Extracts (.action opening line :: (body ++ .action closing line' :: rest)) page
      (nested ++ ⟨name, inner⟩ :: es)

theorem definition?_of_finish {statement : List Char} (h : Keyword.of statement = .finish) (line : Nat) :
    (Segment.action statement line).definition? = none := by
  simp only [Segment.definition?, h]

/-- Every definition is taken out. -/
theorem Extracts.names {segments page : List Segment} {es : List Excerpt}
    (h : Extracts segments page es) :
    (es.map (·.name)).Perm (segments.filterMap Segment.definition?) := by
  induction h with
  | nil => exact .nil
  | keep hsegment _ ih =>
    rw [List.filterMap_cons_none hsegment]
    exact ih
  | define hopening _ hclosing _ _ ihinner ihrest =>
    rw [List.filterMap_cons_some hopening, List.filterMap_append,
      List.filterMap_cons_none (definition?_of_finish hclosing _), List.map_append, List.map_cons]
    exact List.perm_middle.trans ((ihinner.append ihrest).cons _)

/-! ## Definitions in open frames -/

/-- A definition is opened, with a context of its own. -/
theorem compile_opening {opening : List Char} {line : Nat} {name : String}
    (h : (Segment.action opening line).definition? = some name) (segments : List Segment) (b : Builder) :
    compile frames done (.action opening line :: segments) b =
      compile (⟨.define name b.context, line, b.emitted⟩ :: frames) done segments
        { b with context := .body, emitted := [] } := by
  cases hkeyword : Keyword.of opening with
  | define subject =>
    simp only [Segment.definition?, hkeyword] at h
    cases hp : parsePipeline subject with
    | error e => simp [hp, Except.toOption] at h
    | ok p =>
      have hname : definedName? p = some name := by simpa [hp, Except.toOption] using h
      have hpipeline : Build.pipeline subject line b = .ok p b := by
        unfold Build.pipeline
        rw [hp]
        rfl
      rw [compile, hkeyword]
      change EStateM.bind _ _ b = _
      simp only [EStateM.bind, hpipeline, hname]
      rfl
  | _ => simp [Segment.definition?, hkeyword] at h

/-- Every definition that is open in a source that compiles is ended, behind segments that touch no block
but their own. -/
theorem exists_finish (name : String) (context : HtmlContext) (line : Nat) (outer : List Node)
    (segments : List Segment) : ∀ {n : Nat} {inner : List Frame} {done : List Definition} {b : Builder},
    Blocks inner n →
    compile (inner ++ ⟨.define name context, line, outer⟩ :: frames) done segments b = .ok ds b' →
    ∃ body closing line' rest, segments = body ++ .action closing line' :: rest ∧
      openAfter n body = some 0 ∧ Keyword.of closing = .finish := by
  induction segments with
  | nil =>
    intro n inner done b _ h
    cases inner <;> cases h
  | cons segment segments ih =>
    intro n inner done b hinner h
    cases hk : openAfter n [segment] with
    | some k =>
      have hstep := step_append hinner hk (⟨.define name context, line, outer⟩ :: frames) [] done
      rw [List.nil_append] at hstep
      rw [compile_cons, hstep, bind_map_left] at h
      obtain ⟨r, b₁, hr, h⟩ := Build.bind_eq_ok.1 h
      have hblocks := step_blocks hinner hk [] b
      rw [hr] at hblocks
      obtain ⟨body, closing, line', rest, rfl, hbody, hclosing⟩ := ih hblocks h
      refine ⟨segment :: body, closing, line', rest, rfl, ?_, hclosing⟩
      have hsplit := openAfter_append [segment] body n
      rwa [hk, Option.bind_some, hbody] at hsplit
    | none =>
      -- Only an `end` or an `else` of the definition itself leaves no number of blocks.
      cases segment with
      | text s => cases hk
      | action statement line' =>
        simp only [openAfter] at hk
        cases hkeyword : Keyword.of statement with
        | finish =>
          cases n with
          | zero => exact ⟨[], statement, line', segments, rfl, rfl, hkeyword⟩
          | succ n => simp [hkeyword] at hk
        | otherwise rest =>
          cases n with
          | zero =>
            obtain rfl := hinner.eq_nil
            rw [compile, hkeyword] at h
            cases h
          | succ n => simp [hkeyword] at hk
        | _ => simp [hkeyword] at hk

/-- **A definition is compiled as a source of its own**, and what is written around it goes on as if it
were not there. -/
theorem compile_definition {opening closing : List Char} {line line' : Nat} {name : String}
    {body rest : List Segment} (hopening : (Segment.action opening line).definition? = some name)
    (hbody : openAfter 0 body = some 0) (hclosing : Keyword.of closing = .finish)
    (h : compile frames done (.action opening line :: (body ++ .action closing line' :: rest)) b =
      .ok ds b') :
    ∃ ds₁ b₁, compile [] [] body { b with context := .body, emitted := [] } = .ok ds₁ b₁ ∧
      compile frames (⟨name, b₁.nodes⟩ :: (ds₁.reverse ++ done)) rest b = .ok ds b' := by
  rw [compile_opening hopening, compile_body hbody] at h
  obtain ⟨r, b₁, hwalk, h⟩ := Build.bind_eq_ok.1 h
  have hnil : r.1 = [] := by
    have hblocks := walk_blocks body [] .nil hbody { b with context := .body, emitted := [] }
    rw [hwalk] at hblocks
    exact hblocks.eq_nil
  have hinner : compile [] [] body { b with context := .body, emitted := [] } = .ok r.2.reverse b₁ := by
    rw [← List.append_nil body, compile_append]
    refine Build.bind_eq_ok.2 ⟨r, b₁, hwalk, ?_⟩
    rw [hnil]
    rfl
  have hevents : b₁.events = b.events :=
    compile_quiet body [] [] { b with context := .body, emitted := [] } _ _ hinner
  refine ⟨r.2.reverse, b₁, hinner, ?_⟩
  rw [compile, hclosing] at h
  have hafter : { b₁ with emitted := b.emitted, context := b.context } = b := by rw [hevents]
  rw [List.reverse_reverse, ← hafter]
  exact h

/-! ## All segments -/

/-- **Where a source compiles the definitions can be taken out.** -/
theorem exists_extracts (segments : List Segment) : ∀ {frames : List Frame} {done ds : List Definition}
    {b b' : Builder}, compile frames done segments b = .ok ds b' →
      ∃ page es, Extracts segments page es := by
  -- By length: both the inside of a definition and what is behind its end are shorter.
  induction hn : segments.length using Nat.strongRecOn generalizing segments with
  | ind n ih =>
  subst hn
  intro frames done ds b b' h
  match segments with
  | [] => exact ⟨[], [], .nil⟩
  | segment :: segments =>
    cases hsegment : segment.definition? with
    | none =>
      rw [compile_cons] at h
      obtain ⟨r, b₁, -, h⟩ := Build.bind_eq_ok.1 h
      obtain ⟨page, es, hextracts⟩ := ih segments.length (by simp) segments rfl h
      exact ⟨segment :: page, es, .keep hsegment hextracts⟩
    | some name =>
      cases segment with
      | text s => cases hsegment
      | action opening line =>
        have hopened := h
        rw [compile_opening hsegment] at hopened
        obtain ⟨body, closing, line', rest, rfl, hbody, hclosing⟩ :=
          exists_finish name b.context line b.emitted segments .nil hopened
        obtain ⟨ds₁, b₁, hinner, hrest⟩ := compile_definition hsegment hbody hclosing h
        have hlength : (body ++ Segment.action closing line' :: rest).length =
            body.length + rest.length + 1 := by
          rw [List.length_append, List.length_cons, Nat.add_assoc]
        obtain ⟨inner, nested, hnested⟩ := ih body.length (by simp only [List.length_cons]; omega) body
          rfl hinner
        obtain ⟨page, es, hpage⟩ := ih rest.length (by simp only [List.length_cons]; omega) rest rfl hrest
        exact ⟨page, nested ++ ⟨name, inner⟩ :: es, .define hsegment hbody hclosing hnested hpage⟩

/-- The template that the segments of an excerpt are compiled to, as a source of their own that has no
definitions. -/
def Excerpt.CompiledTo (e : Excerpt) (t : Template) : Prop :=
  ∃ b, compile [] [] e.segments {} = .ok [] b ∧ t = { name := e.name, nodes := b.nodes }

/-- The definitions that have ended count for nothing. -/
theorem step_done (frames : List Frame) (done : List Definition) (segment : Segment) :
    step frames done segment = (fun r => (r.1, r.2 ++ done)) <$> step frames [] segment := by
  cases segment with
  | text s => simp [step]
  | action statement line =>
    simp only [step]
    cases Keyword.of statement with
    | define subject =>
      simp only [map_bind]
      refine bind_congr fun p => ?_
      cases definedName? p with
      | none => rfl
      | some name => simp
    | _ => simp

/-- Where no definition is open, only the action of one opens it. -/
theorem step_keep {segment : Segment} {r : List Frame × List Definition}
    (hsegment : segment.definition? = none) (hframes : frames.filterMap Frame.definition? = [])
    (h : step frames [] segment b = .ok r b') : r.1.filterMap Frame.definition? = [] ∧ r.2 = [] := by
  cases segment with
  | text s =>
    cases h
    exact ⟨hframes, rfl⟩
  | action statement line =>
    rw [step] at h
    cases hkeyword : Keyword.of statement with
    | finish =>
      rw [hkeyword] at h
      obtain ⟨⟨fs, ended⟩, b₁, hclose, h⟩ := Build.bind_eq_ok.1 h
      cases h
      have hnames := closeFrame_definitions hclose
      simp only [hframes, List.not_mem_nil, false_iff, not_or] at hnames
      have hended : ended = none := by
        cases ended with
        | none => rfl
        | some d => exact absurd (by simp) (hnames d.name).1
      rw [hended]
      exact ⟨List.eq_nil_iff_forall_not_mem.2 fun n => (hnames n).2, rfl⟩
    | otherwise rest =>
      rw [hkeyword] at h
      obtain ⟨fs, b₁, helse, h⟩ := Build.bind_eq_ok.1 h
      cases h
      exact ⟨(elseFrame_definitions helse).trans hframes, rfl⟩
    | branch branch subject =>
      rw [hkeyword] at h
      obtain ⟨p, b₁, -, h⟩ := Build.bind_eq_ok.1 h
      obtain ⟨f, b₂, hopen, h⟩ := Build.bind_eq_ok.1 h
      cases hopen
      cases h
      exact ⟨hframes, rfl⟩
    | define subject =>
      rw [hkeyword] at h
      obtain ⟨p, b₁, hp, h⟩ := Build.bind_eq_ok.1 h
      obtain ⟨hsubject, -⟩ := pipeline_eq_ok hp
      have hname : definedName? p = none := by
        simpa [Segment.definition?, hkeyword, hsubject, Except.toOption] using hsegment
      simp only [hname] at h
      cases h
    | action =>
      rw [hkeyword] at h
      obtain ⟨_, b₁, -, h⟩ := Build.bind_eq_ok.1 h
      cases h
      exact ⟨hframes, rfl⟩

/-- **The definitions of a source are compiled one by one**, in the order of their ends, and what is left
is compiled as if they were not there. -/
theorem compile_extracts {segments page : List Segment} {es : List Excerpt}
    (h : Extracts segments page es) :
    ∀ {frames : List Frame} {done ds : List Definition} {b b' : Builder},
    frames.filterMap Frame.definition? = [] → b.events = [] →
    compile frames done segments b = .ok ds b' →
    ∃ ds₀, ds = done.reverse ++ ds₀ ∧
      List.Forall₂ Excerpt.CompiledTo es (ds₀.map Definition.template) ∧
      ∀ done', compile frames done' page b = .ok done'.reverse b' := by
  induction h with
  | nil =>
    intro frames done ds b b' _ _ h
    cases frames with
    | nil =>
      cases h
      exact ⟨[], (List.append_nil _).symm, .nil, fun _ => rfl⟩
    | cons f fs => cases h
  | @keep segment segments page es hsegment _ ih =>
    intro frames done ds b b' hframes hevents h
    rw [compile_cons, step_done, bind_map_left] at h
    obtain ⟨r, b₁, hstep, h⟩ := Build.bind_eq_ok.1 h
    obtain ⟨hframes', hr⟩ := step_keep hsegment hframes hstep
    rw [hr, List.nil_append] at h
    obtain ⟨ds₀, hds, hes, hpage⟩ := ih hframes' ((step_quiet _ _ _ _ _ _ hstep).trans hevents) h
    refine ⟨ds₀, hds, hes, fun done' => ?_⟩
    rw [compile_cons, step_done, bind_map_left]
    refine Build.bind_eq_ok.2 ⟨r, b₁, hstep, ?_⟩
    rw [hr, List.nil_append]
    exact hpage done'
  | @define opening closing line line' name body inner rest page nested es hopening hbody hclosing _ _
      ihinner ihrest =>
    intro frames done ds b b' hframes hevents h
    obtain ⟨ds₁, b₁, hinner, hrest⟩ := compile_definition hopening hbody hclosing h
    -- Nothing of the builder outside is seen inside, so that the definition could be a source itself.
    have hfresh : ({ b with context := .body, emitted := [] } : Builder) = {} := by rw [hevents]
    rw [hfresh] at hinner
    obtain ⟨ds₁, rfl, hnested, hbody⟩ := ihinner rfl rfl hinner
    obtain ⟨ds₂, rfl, hes, hpage⟩ := ihrest hframes hevents hrest
    refine ⟨ds₁ ++ ⟨name, b₁.nodes⟩ :: ds₂, by simp, ?_, hpage⟩
    rw [List.map_append, List.map_cons]
    exact List.rel_append hnested (.cons ⟨b₁, hbody [], rfl⟩ hes)

end Delimited

/-! ## Entries of one name -/

namespace Table

variable {α : Type u} {entries : List (String × α)}

theorem ofList_concat (entries : List (String × α)) (e : String × α) :
    ofList (entries ++ [e]) = insert e.1 e.2 (ofList entries) := by
  rw [ofList, List.foldl_append]
  rfl

/-- An element of a list is its last one, or one of the others. -/
theorem concat_eq_append_cons {β : Type u} {xs before after : List β} {e x : β}
    (h : xs ++ [e] = before ++ x :: after) :
    (xs = before ∧ e = x ∧ after = []) ∨ ∃ mid, after = mid ++ [e] ∧ xs = before ++ x :: mid := by
  rcases List.eq_nil_or_concat after with rfl | ⟨mid, d, rfl⟩
  · obtain ⟨rfl, hlast⟩ := List.append_inj' h rfl
    exact .inl ⟨rfl, (List.cons.inj hlast).1, rfl⟩
  · rw [List.concat_eq_append, ← List.cons_append, ← List.append_assoc] at h
    obtain ⟨rfl, hlast⟩ := List.append_inj' h rfl
    rw [(List.cons.inj hlast).1]
    exact .inr ⟨mid, List.concat_eq_append, rfl⟩

/-- **Of some entries with one name the last is found.** -/
theorem get?_ofList_iff {name : String} {v : α} : get? name (ofList entries) = some v ↔
    ∃ before after, entries = before ++ (name, v) :: after ∧ name ∉ after.map (·.1) := by
  induction entries using List.reverseRecOn with
  | nil => simp [ofList, get?]
  | append_singleton entries e ih =>
    obtain ⟨k, w⟩ := e
    rw [ofList_concat, get?_insert]
    by_cases hk : k = name
    · subst hk
      rw [if_pos rfl]
      constructor
      · rintro ⟨⟩
        exact ⟨entries, [], rfl, by simp⟩
      · rintro ⟨before, after, heq, hafter⟩
        rcases concat_eq_append_cons heq with ⟨-, hlast, -⟩ | ⟨mid, rfl, -⟩
        · cases hlast
          rfl
        · simp at hafter
    · rw [if_neg hk, ih]
      constructor
      · rintro ⟨before, after, rfl, hafter⟩
        exact ⟨before, after ++ [(k, w)], by simp, by simpa [Ne.symm hk] using hafter⟩
      · rintro ⟨before, after, heq, hafter⟩
        rcases concat_eq_append_cons heq with ⟨-, hlast, -⟩ | ⟨mid, rfl, rfl⟩
        · cases hlast
          exact absurd rfl hk
        · exact ⟨before, mid, rfl, fun hmem => hafter (by simp [hmem])⟩

/-- **No entry is lost** exactly if no two of them have one name. -/
theorem length_ofList_iff :
    (ofList entries).length = entries.length ↔ (entries.map (·.1)).Nodup := by
  have hnodup : (names (ofList entries)).Nodup :=
    (List.pairwise_map.2 (sorted_ofList entries)).imp fun h => String.ne_of_lt h
  have hmem : ∀ n, n ∈ names (ofList entries) ↔ n ∈ entries.map (·.1) := fun n => mem_names_ofList
  have hlength : (ofList entries).length = (names (ofList entries)).length := (List.length_map _).symm
  rw [hlength]
  constructor
  · intro h
    have hsub : (names (ofList entries)).Subperm (entries.map (·.1)) :=
      hnodup.subperm fun n hn => (hmem n).1 hn
    exact (hsub.perm_of_length_le (by rw [h, List.length_map])).nodup_iff.1 hnodup
  · intro h
    rw [((List.perm_ext_iff_of_nodup hnodup h).2 hmem).length_eq, List.length_map]

end Table

/-! ## Sources -/

namespace Delimited

/-- Every template is found under its name, and there are no others. -/
def Complete (ts : List Template) (templates : Table Template) : Prop :=
  (∀ t ∈ ts, Table.get? t.name templates = some t) ∧ templates.length = ts.length

theorem get?_byName_iff {ts : List Template} {n : String} {t : Template} :
    Table.get? n (byName ts) = some t ↔
      ∃ before after, ts = before ++ t :: after ∧ t.name = n ∧ n ∉ after.map (·.name) := by
  rw [byName, Table.get?_ofList_iff]
  constructor
  · rintro ⟨before, after, heq, hafter⟩
    obtain ⟨before, ts, rfl, -, hts⟩ := List.map_eq_append_iff.1 heq
    obtain ⟨t', after, rfl, ht, rfl⟩ := List.map_eq_cons_iff.1 hts
    cases ht
    exact ⟨before, after, rfl, rfl, by simpa using hafter⟩
  · rintro ⟨before, after, rfl, rfl, hafter⟩
    exact ⟨before.map fun t => (t.name, t), after.map fun t => (t.name, t), by simp,
      by simpa using hafter⟩

theorem complete_byName_iff {ts : List Template} :
    Complete ts (byName ts) ↔ (ts.map (·.name)).Nodup := by
  have hlength : (byName ts).length = ts.length ↔ (ts.map (·.name)).Nodup := by
    have hentries := @Table.length_ofList_iff _ (ts.map fun t => (t.name, t))
    rwa [List.length_map, List.map_map] at hentries
  constructor
  · exact fun h => hlength.1 h.2
  · refine fun h => ⟨fun t ht => ?_, hlength.2 h⟩
    obtain ⟨before, after, rfl⟩ := List.append_of_mem ht
    refine get?_byName_iff.2 ⟨before, after, rfl, rfl, ?_⟩
    rw [List.map_append, List.map_cons, List.nodup_middle] at h
    exact fun hmem => (List.nodup_cons.1 h).1 (List.mem_append_right _ hmem)

theorem CompiledTo.names {es : List Excerpt} {ts : List Template}
    (h : List.Forall₂ Excerpt.CompiledTo es ts) : ts.map (·.name) = es.map (·.name) := by
  induction h with
  | nil => rfl
  | cons ht _ ih =>
    obtain ⟨b, -, rfl⟩ := ht
    rw [List.map_cons, List.map_cons, ih]

/-- **The templates of a delimited source.** The definitions can be taken out of its segments. What is
left, under the name of the source, and each of them, under its own name, is compiled by itself, and for
every name the last of these templates is found. All of them are found exactly if no two have one name. -/
theorem templates_of_parse {s : Settings} {name source : String} {templates : Table Template}
    (h : (parse s name source).1 = .ok templates) :
    ∃ segments, Segment.ofSource s.delimiters source.toList = .ok segments ∧
      (∃ page es, Extracts segments page es) ∧
      ∀ page es, Extracts segments page es →
        (es.map (·.name)).Perm (definitions s source) ∧
        ∃ ts, List.Forall₂ Excerpt.CompiledTo (⟨name, page⟩ :: es) ts ∧
          (∀ n t, Table.get? n templates = some t ↔
            ∃ before after, ts = before ++ t :: after ∧ t.name = n ∧ n ∉ after.map (·.name)) ∧
          (Complete ts templates ↔ (name :: definitions s source).Nodup) := by
  obtain ⟨segments, ds, b, hsegments, hrun, rfl⟩ := parse_eq_ok h
  refine ⟨segments, hsegments, exists_extracts segments hrun, fun page es hextracts => ?_⟩
  have hnames : (es.map (·.name)).Perm (definitions s source) := by
    unfold definitions
    rw [hsegments]
    exact hextracts.names
  obtain ⟨ds, rfl, hes, hpage⟩ := compile_extracts hextracts rfl rfl hrun
  have hts : List.Forall₂ Excerpt.CompiledTo (⟨name, page⟩ :: es)
      ({ name, nodes := b.nodes } :: ds.map Definition.template) := .cons ⟨b, hpage [], rfl⟩ hes
  refine ⟨hnames, _, hts, fun n t => get?_byName_iff, ?_⟩
  rw [complete_byName_iff, CompiledTo.names hts, List.map_cons]
  exact (hnames.cons name).nodup_iff

/-- Settings without filters and doctypes. -/
def bareSettings : Settings := { filters := [], doctypes := [] }

/-- A source with a definition in a branch, and one inside of it. -/
def nestedText : String :=
  "a\x7b\x7bif .X\x7d\x7db\x7b\x7bdefine \"q\"\x7d\x7dc\x7b\x7bdefine \"r\"\x7d\x7dd" ++
    "\x7b\x7bend\x7d\x7de\x7b\x7bend\x7d\x7df\x7b\x7bend\x7d\x7dg"

/-- The templates of `nestedText`. -/
def nestedTemplates : Table Template :=
  [("p", { name := "p", nodes :=
      [.text "a", .cond 1 false { commands := [[.field ["X"]]] } [.text "bf"] [], .text "g"] }),
    ("q", { name := "q", nodes := [.text "ce"] }),
    ("r", { name := "r", nodes := [.text "d"] })]

theorem parse_nestedText : (parse bareSettings "p" nestedText).1 = .ok nestedTemplates := by cbv

theorem definitions_nestedText : definitions bareSettings nestedText = ["q", "r"] := by cbv

theorem templates_of_parse_nestedText :
    (parse bareSettings "p" nestedText).1 = .ok nestedTemplates ∧
      ∃ segments, Segment.ofSource bareSettings.delimiters nestedText.toList = .ok segments ∧
        ∃ page es, Extracts segments page es ∧ (es.map (·.name)).Perm ["q", "r"] ∧
          ∃ ts, List.Forall₂ Excerpt.CompiledTo (⟨"p", page⟩ :: es) ts ∧ Complete ts nestedTemplates := by
  obtain ⟨segments, hsegments, ⟨page, es, hextracts⟩, hall⟩ := templates_of_parse parse_nestedText
  obtain ⟨hnames, ts, hts, -, hcomplete⟩ := hall page es hextracts
  rw [definitions_nestedText] at hnames hcomplete
  exact ⟨parse_nestedText, segments, hsegments, page, es, hextracts, hnames, ts, hts,
    hcomplete.2 (by decide)⟩

/-- A source with a definition under its own name. -/
def selfText : String := "a\x7b\x7bdefine \"p\"\x7d\x7db\x7b\x7bend\x7d\x7d"

/-- The segments of `selfText`. -/
def selfSegments : List Segment :=
  [.text ['a'], .action "define \"p\"".toList 1, .text ['b'], .action "end".toList 1]

theorem ofSource_selfText :
    Segment.ofSource bareSettings.delimiters selfText.toList = .ok selfSegments := by cbv

/-- The definition taken out of `selfText`. -/
theorem extracts_selfText : Extracts selfSegments [.text ['a']] [⟨"p", [.text ['b']]⟩] := by
  have hopening : (Segment.action "define \"p\"".toList 1).definition? = some "p" := by cbv
  have hdefine : Extracts (.action "define \"p\"".toList 1 ::
      ([.text ['b']] ++ .action "end".toList 1 :: [])) [] ([] ++ ⟨"p", [.text ['b']]⟩ :: []) :=
    .define hopening rfl rfl (.keep rfl .nil) .nil
  exact .keep rfl hdefine

/-- **A definition with the name of its source takes its place**: the text outside of it is lost. -/
theorem definition_replaces_page :
    Segment.ofSource bareSettings.delimiters selfText.toList = .ok selfSegments ∧
      Extracts selfSegments [.text ['a']] [⟨"p", [.text ['b']]⟩] ∧
      (parse bareSettings "p" selfText).1 = .ok [("p", { name := "p", nodes := [.text "b"] })] :=
  ⟨ofSource_selfText, extracts_selfText, by cbv⟩

end Delimited

end Stencil
