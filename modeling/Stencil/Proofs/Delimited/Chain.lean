import Stencil.Proofs.Delimited.Bodies
import Stencil.Proofs.Template.Twins

/-!
# Chains of branches in a delimited source

A branch with an `else` clause opens a frame that closes with the one around it, so the links of a chain
share one `end`. That is the same as an `else` part with a branch in it and two ends one after the other.

* `Chain` is a branch with its links; `Chain.flatSource` writes every link as an `else` clause, and
  `Chain.deepSource` as a branch in an `else` part.
* `Pieces.scan_source` says what the segments of such a source are. A body that ends in a brace takes the
  delimiter of the next action with it: `Pieces.scan_source_braced`.
* `Closing.compile_chained` trades the frame of a clause for one more `end`.
* `SameBehind.link` is the step from one link to the next, and `twins_scan` the induction on the links.
* `Chain.sameTemplates` says that both sources are compiled to the same, or neither can be compiled.
-/

namespace Stencil.Delimited

open Text (lineFeeds)
open Segment (Spoken Whole)

/-! ## Chains -/

/-- A source that can stand in a branch. -/
structure Body where
  source : List Char
  isBody : IsBody source

/-- A branch with what is tested and with its body. -/
structure Arm where
  branch : Branch
  subject : List Char
  tight : Text.Tight subject
  closing : Text.cut? Delimiters.standard.closing subject = none
  body : Body

/-- The statement of the branch. -/
def Arm.statement (a : Arm) : List Char := a.branch.statement a.subject

/-- A branch that goes on with others behind an `else`. -/
structure Chain where
  first : Arm
  links : List Arm
  /-- There is no `else range`. -/
  chained : ∀ l ∈ links, l.branch ≠ .range
  otherwise : Option Body

/-- Sources, and the statement of the action behind each. -/
abbrev Pieces := List (List Char × List Char)

/-- How pieces are written. -/
def Pieces.source (ps : Pieces) : List Char :=
  ps.flatMap fun p => p.1 ++ Segment.source .standard (.action p.2 0)

namespace Chain

/-- An `else` part of its own and the end, behind a body. -/
def finish (body : List Char) : Option Body → Pieces
  | none => [(body, "end".toList)]
  | some o => [(body, "else".toList), (o.source, "end".toList)]

/-- Every link is written as an `else` clause, and there is one `end`. -/
def flat (otherwise : Option Body) (body : List Char) : List Arm → Pieces
  | [] => finish body otherwise
  | l :: links => (body, "else ".toList ++ l.statement) :: flat otherwise l.body.source links

/-- Every link is written as a branch in an `else` part, with an `end` of its own. -/
def deep (otherwise : Option Body) (body : List Char) : List Arm → Pieces
  | [] => finish body otherwise
  | l :: links => (body, "else".toList) :: ([], l.statement) ::
    (deep otherwise l.body.source links ++ [([], "end".toList)])

/-- The source with `else` clauses. -/
def flatSource (c : Chain) : List Char :=
  Pieces.source (([], c.first.statement) :: flat c.otherwise c.first.body.source c.links)

/-- The source with a branch in every `else` part. -/
def deepSource (c : Chain) : List Char :=
  Pieces.source (([], c.first.statement) :: deep c.otherwise c.first.body.source c.links)

end Chain

/-! ## Scanning -/

namespace Pieces

/-- The segments of pieces from `line` on. -/
def scan (line : Nat) : Pieces → Except Fault (List Segment)
  | [] => return []
  | (body, statement) :: ps => do
    let segments ← Segment.scan .standard false line body
    let more ← scan (line + lineFeeds (body ++ Segment.source .standard (.action statement 0))) ps
    return segments ++ .action statement (line + lineFeeds body) :: more

/-- The pieces can be told apart. -/
def Apart (ps : Pieces) : Prop := ∀ p ∈ ps, IsBody p.1 ∧ Spoken .standard p.2

variable {ps : Pieces}

/-- The first piece is scanned as if it stood alone, unless its body ends in a brace. -/
theorem scan_source_cons {body statement : List Char} (hbody : IsBody body)
    (hstatement : Spoken .standard statement) (hlast : body.getLast? ≠ some '\x7b') (line : Nat) :
    Segment.scan .standard false line (source ((body, statement) :: ps)) = do
      let segments ← Segment.scan .standard false line body
      let more ← Segment.scan .standard false
        (line + lineFeeds (body ++ Segment.source .standard (.action statement 0))) ps.source
      return segments ++ .action statement (line + lineFeeds body) :: more := by
  have hclear : ∀ text, text <:+ body → Text.cut? Delimiters.standard.opening text = none →
      Segment.Clear .standard text := by
    intro text hsuffix hnone
    refine Segment.clear_of_getLast hnone fun htext => hlast ?_
    obtain ⟨before, rfl⟩ := hsuffix
    rw [List.getLast?_append, htext]
    rfl
  rw [source, List.flatMap_cons, List.append_assoc,
    Segment.scan_append isWord_closing hclear hstatement (hbody.whole line)]
  rfl

theorem scan_source (hps : Apart ps) (hlast : ∀ p ∈ ps, p.1.getLast? ≠ some '\x7b') (line : Nat) :
    Segment.scan .standard false line ps.source = ps.scan line := by
  induction ps generalizing line with
  | nil =>
    rw [source, List.flatMap_nil, Segment.scan_last rfl]
    rfl
  | cons p ps ih =>
    obtain ⟨⟨hbody, hstatement⟩, hps⟩ := List.forall_mem_cons.1 hps
    obtain ⟨hlast, hlasts⟩ := List.forall_mem_cons.1 hlast
    rw [scan_source_cons hbody hstatement hlast, scan]
    simp only [ih hps hlasts]

/-- If a body ends in a brace, a statement of the source begins with one. -/
theorem scan_source_braced (hps : Apart ps) (hlast : ∃ p ∈ ps, p.1.getLast? = some '\x7b')
    (line : Nat) :
    Ends Segment.HasBrace (fun _ => True) (Segment.scan .standard false line ps.source) := by
  induction ps generalizing line with
  | nil => simp at hlast
  | cons p ps ih =>
    obtain ⟨body, statement⟩ := p
    obtain ⟨⟨hbody, hstatement⟩, hps⟩ := List.forall_mem_cons.1 hps
    by_cases hbrace : body.getLast? = some '\x7b'
    · rw [source, List.flatMap_cons, List.append_assoc]
      exact Segment.scan_braced hstatement (hbody.whole line) hbrace _
    · have hrest : ∃ p ∈ ps, p.1.getLast? = some '\x7b' := by simpa [hbrace] using hlast
      rw [scan_source_cons hbody hstatement hbrace]
      refine (Ends.any _).bind fun first _ => (ih hps hrest _).bind fun more hmore => ?_
      obtain ⟨t, line', hmem⟩ := hmore
      exact ⟨t, line', by simp [hmem]⟩

theorem scan_append (ps qs : Pieces) (line : Nat) : scan line (ps ++ qs) = do
    let segments ← scan line ps
    let more ← scan (line + lineFeeds ps.source) qs
    return segments ++ more := by
  induction ps generalizing line with
  | nil =>
    change scan line qs = scan line qs >>= fun more => pure ([] ++ more)
    simp
  | cons p ps ih =>
    have hline : line + lineFeeds (source (p :: ps)) =
        line + lineFeeds (p.1 ++ Segment.source .standard (.action p.2 0)) + lineFeeds (source ps) := by
      rw [source, List.flatMap_cons, Text.lineFeeds_append, ← Nat.add_assoc]
      rfl
    rw [List.cons_append, scan, scan, hline]
    simp only [ih, bind_assoc, pure_bind]
    refine bind_congr fun segments => bind_congr fun more => bind_congr fun others => ?_
    simp

end Pieces

/-! ## Ends -/

/-- What stands behind the beginning of a branch up to its `end`. -/
inductive Closing : List Segment → Prop
  | plain {body : List Segment} {line : Nat} (hbody : openAfter 0 body = some 0) :
    Closing (body ++ [.action "end".toList line])
  | choice {body otherwise : List Segment} {line line' : Nat} (hbody : openAfter 0 body = some 0)
    (hother : openAfter 0 otherwise = some 0) :
    Closing (body ++ .action "else".toList line :: (otherwise ++ [.action "end".toList line']))

/-- A block around some segments stays open if they touch no other than their own. -/
theorem openAfter_succ (segments : List Segment) : ∀ {n m : Nat},
    openAfter n segments = some m → openAfter (n + 1) segments = some (m + 1) := by
  induction segments with
  | nil =>
    rintro n _ ⟨⟩
    rfl
  | cons segment segments ih =>
    intro n m h
    cases segment with
    | text s => exact ih h
    | action statement line =>
      cases hkeyword : Keyword.of statement <;> cases n <;>
        simp only [openAfter, hkeyword] at h ⊢ <;> first | exact ih h | cases h

theorem Closing.openAfter_eq {segments : List Segment} (h : Closing segments) :
    openAfter 1 segments = some 0 := by
  cases h with
  | plain hbody =>
    rw [openAfter_append, openAfter_succ _ hbody]
    rfl
  | choice hbody hother =>
    rw [openAfter_append, openAfter_succ _ hbody]
    change openAfter 1 (_ ++ _) = _
    rw [openAfter_append, openAfter_succ _ hother]
    rfl

section

variable {b : Branch} {p : Pipeline} {start : Nat} {outer : List Node} {frames : List Frame}
  {done : List Definition} {segments rest : List Segment}

theorem compile_finish (line : Nat) : compile frames done (.action "end".toList line :: rest) =
    closeFrame frames >>= fun r => compile r.1 (r.2.toList ++ done) rest := by
  rw [compile, keyword_end]

theorem compile_otherwise (line : Nat) : compile frames done (.action "else".toList line :: rest) =
    elseFrame [] line frames >>= fun fs => compile fs done rest := by
  rw [compile, keyword_else]

/-- A chained branch ends with the one around it, and another one has an `end` of its own. -/
theorem compile_end_chained {part : Option (List Node)} {body : List Segment}
    (hbody : openAfter 0 body = some 0) (line line' : Nat) :
    compile (⟨.branch b p true part, start, outer⟩ :: frames) done
        (body ++ .action "end".toList line :: rest) =
      compile (⟨.branch b p false part, start, outer⟩ :: frames) done
        (body ++ .action "end".toList line :: .action "end".toList line' :: rest) := by
  rw [compile_body hbody, compile_body hbody]
  refine bind_congr fun r => ?_
  simp only [compile_finish, closeFrame, if_true, Bool.false_eq_true, if_false, bind_assoc, pure_bind,
    Option.toList_none, List.nil_append]

theorem Closing.compile_chained (h : Closing segments) (line : Nat) :
    compile (⟨.branch b p true none, start, outer⟩ :: frames) done (segments ++ rest) =
      compile (⟨.branch b p false none, start, outer⟩ :: frames) done
        (segments ++ .action "end".toList line :: rest) := by
  cases h with
  | plain hbody =>
    rw [List.append_assoc, List.append_assoc]
    exact compile_end_chained hbody _ _
  | choice hbody hother =>
    simp only [List.append_assoc, List.cons_append, List.nil_append]
    rw [compile_body hbody, compile_body hbody]
    refine bind_congr fun r => ?_
    simp only [compile_otherwise, elseFrame, List.isEmpty_nil, if_true, bind_assoc, pure_bind]
    refine bind_congr fun s => bind_congr fun _ => ?_
    exact compile_end_chained hother _ _

end

/-! ## Links -/

theorem Arm.keyword (a : Arm) : Keyword.of a.statement = .branch a.branch a.subject :=
  keyword_branch a.branch a.tight

/-- What follows `else` is a link, unless it is a `range`. -/
theorem Arm.keyword_else (a : Arm) :
    Keyword.of ("else ".toList ++ a.statement) = .otherwise a.statement := by
  have hword : Text.IsWord "else".toList := by decide
  have htight : Text.Tight a.statement := Segment.tight_statement a.branch a.tight
  have hfirst : firstWord ("else ".toList ++ a.statement) = ("else".toList, a.statement) :=
    firstWord_append_space hword a.statement
  unfold Keyword.of
  rw [hfirst]
  simp only [htight.trim_eq]
  rfl

theorem Arm.chained (a : Arm) (h : a.branch ≠ .range) :
    chained? a.statement = some (a.branch, a.subject) := by
  have hfirst : firstWord a.statement = (a.branch.word, a.subject) :=
    firstWord_append_space (isWord_word a.branch) a.subject
  unfold chained?
  rw [hfirst]
  simp only [a.tight.trim_eq]
  cases hbranch : a.branch with
  | cond => rfl
  | range => exact absurd hbranch h
  | scope => rfl

theorem twins_openFrame {β β' : Type} {R : β → β' → Prop} {c c' : Construct} {line : Nat}
    {k : Frame → Build β} {k' : Frame → Build β'}
    (h : ∀ outer, Build.Twins Eq R (k ⟨c, line, outer⟩) (k' ⟨c', line, outer⟩)) :
    Build.Twins Eq R (openFrame c line >>= k) (openFrame c' line >>= k') := by
  unfold openFrame
  simp only [bind_assoc, pure_bind]
  refine .getState fun s s' hs => ?_
  cases hs
  exact .seq (.refl _) fun _ _ => h s.emitted

/-- Segments that are compiled to the same behind the beginning of a branch. -/
def SameBehind (segments segments' : List Segment) : Prop :=
  ∀ (b : Branch) (p : Pipeline) (chained : Bool) (start : Nat) (outer : List Node)
    (frames : List Frame) (done : List Definition) (rest : List Segment),
    Build.Twins Eq Eq
      (compile (⟨.branch b p chained none, start, outer⟩ :: frames) done (segments ++ rest))
      (compile (⟨.branch b p chained none, start, outer⟩ :: frames) done (segments' ++ rest))

theorem SameBehind.compile_branch {segments segments' : List Segment} (h : SameBehind segments segments')
    (a : Arm) (line : Nat) : Build.Twins Eq Eq (compile [] [] (.action a.statement line :: segments))
      (compile [] [] (.action a.statement line :: segments')) := by
  simp only [compile, a.keyword]
  refine .bind (.refl _) fun p _ hp => ?_
  cases hp
  refine twins_openFrame fun outer => ?_
  have hsame := h a.branch p false line outer [] [] []
  rwa [List.append_nil, List.append_nil] at hsame

/-- **A link is a branch in an `else` part**, whose `end` is the one of the branch around it. -/
theorem SameBehind.link {body segments segments' : List Segment} (hbody : openAfter 0 body = some 0)
    (a : Arm) (ha : a.branch ≠ .range) (hclosing : Closing segments') (h : SameBehind segments segments')
    (line line' : Nat) :
    SameBehind (body ++ .action ("else ".toList ++ a.statement) line :: segments)
      (body ++ .action "else".toList line :: .action a.statement line ::
        (segments' ++ [.action "end".toList line'])) := by
  intro b p chained start outer frames done rest
  simp only [List.append_assoc, List.cons_append, List.nil_append]
  rw [compile_body hbody, compile_body hbody]
  refine .bind (.refl _) fun r _ hr => ?_
  cases hr
  have hclause : (Arm.statement a).isEmpty = false := by
    have hne := (Segment.tight_statement a.branch a.tight).ne_nil
    simpa [Arm.statement] using hne
  rw [compile_otherwise, compile, a.keyword_else]
  -- Both sources read the test of the link once. The frame that they open then is a chained one on the
  -- left and one with an end of its own on the right.
  simp only [elseFrame, hclause, Bool.false_eq_true, if_false, List.isEmpty_nil, if_true, bind_assoc,
    pure_bind, a.chained ha]
  refine .getState fun s s' hs => ?_
  cases hs
  simp only [compile, a.keyword]
  cases hp : parsePipeline a.subject with
  | error c =>
    simp only [Build.pipeline, hp]
    exact fun _ _ _ => .error
  | ok p' =>
    simp only [Build.pipeline, hp, pure_bind]
    refine .seq (.refl _) fun _ _ => twins_openFrame fun outer' => ?_
    rw [← hclosing.compile_chained]
    exact h _ _ _ _ _ _ _ _

/-- The segments of a link that is written as a branch: it begins on the line of its `else`. -/
theorem scan_deep_cons (otherwise : Option Body) (body : List Char) (l : Arm) (links : List Arm)
    (line : Nat) : ∃ line', (Chain.deep otherwise body (l :: links)).scan line = do
      let segments ← Segment.scan .standard false line body
      let more ← (Chain.deep otherwise l.body.source links).scan (line +
        lineFeeds (body ++ Segment.source .standard (.action ("else ".toList ++ l.statement) 0)))
      return segments ++ .action "else".toList (line + lineFeeds body) ::
        .action l.statement (line + lineFeeds body) :: (more ++ [.action "end".toList line']) := by
  have hempty : ∀ line, Segment.scan .standard false line [] = pure [] := fun line =>
    Segment.scan_last rfl
  have helse : lineFeeds (body ++ Segment.source .standard (.action "else".toList 0)) =
      lineFeeds body := by
    rw [Text.lineFeeds_append]
    rfl
  have hlink : lineFeeds (body ++ Segment.source .standard (.action ("else ".toList ++ l.statement) 0)) =
      lineFeeds body + lineFeeds (Segment.source .standard (.action l.statement 0)) := by
    rw [Text.lineFeeds_append]
    rfl
  refine ⟨line + lineFeeds body + lineFeeds (Segment.source .standard (.action l.statement 0)) +
    lineFeeds (Pieces.source (Chain.deep otherwise l.body.source links)), ?_⟩
  rw [Chain.deep, Pieces.scan, Pieces.scan, Pieces.scan_append, hempty, hlink, helse, ← Nat.add_assoc]
  refine bind_congr fun segments => ?_
  simp only [Pieces.scan, hempty, bind_assoc, pure_bind]
  exact bind_congr fun more => by simp [show lineFeeds [] = 0 from rfl]

theorem scan_finish (otherwise : Option Body) {body : List Char} (hbody : IsBody body) (line : Nat) :
    Ends Closing (fun _ => True) ((Chain.finish body otherwise).scan line) := by
  cases otherwise with
  | none =>
    rw [Chain.finish, Pieces.scan]
    cases hfirst : Segment.scan .standard false line body with
    | error f => trivial
    | ok segments => exact .plain (hbody.openAfter_eq hfirst)
  | some o =>
    rw [Chain.finish, Pieces.scan, Pieces.scan]
    cases hfirst : Segment.scan .standard false line body with
    | error f => trivial
    | ok segments =>
      generalize line + lineFeeds (body ++ Segment.source .standard (.action "else".toList 0)) = next
      cases hother : Segment.scan .standard false next o.source with
      | error f => trivial
      | ok more => exact .choice (hbody.openAfter_eq hfirst) (o.isBody.openAfter_eq hother)

/-- What stands behind the beginning of a branch in either source is compiled to the same. -/
theorem twins_scan (otherwise : Option Body) {links : List Arm} (hlinks : ∀ l ∈ links, l.branch ≠ .range)
    {body : List Char} (hbody : IsBody body) (line : Nat) :
    Twins (fun segments segments' => SameBehind segments segments' ∧ Closing segments')
      ((Chain.flat otherwise body links).scan line) ((Chain.deep otherwise body links).scan line) := by
  induction links generalizing body line with
  | nil =>
    rw [Chain.flat, Chain.deep]
    have hclosing := scan_finish otherwise hbody line
    cases hscan : (Chain.finish body otherwise).scan line with
    | error f => exact .error
    | ok segments =>
      rw [hscan] at hclosing
      exact .ok ⟨fun _ _ _ _ _ _ _ _ => .refl _, hclosing⟩
  | cons l links ih =>
    obtain ⟨hl, hlinks⟩ := List.forall_mem_cons.1 hlinks
    obtain ⟨line', hdeep⟩ := scan_deep_cons otherwise body l links line
    rw [hdeep, Chain.flat, Pieces.scan]
    cases hfirst : Segment.scan .standard false line body with
    | error f => exact .error
    | ok segments =>
      have hopen := hbody.openAfter_eq hfirst
      -- The line is general in the induction: both sources go on behind the same line feeds.
      refine (ih hlinks l.body.isBody _).bind fun more more' hmore => .ok ⟨?_, ?_⟩
      · exact hmore.1.link hopen l hl hmore.2 _ _
      · have hlink : openAfter 0 (.action l.statement (line + lineFeeds body) :: more') = some 0 := by
          simp only [openAfter, l.keyword]
          exact hmore.2.openAfter_eq
        exact .choice hopen hlink

/-! ## Sources -/

theorem Arm.spoken (a : Arm) : Spoken .standard a.statement :=
  Segment.spoken_standard a.branch a.tight a.closing

theorem Arm.spoken_else (a : Arm) : Spoken .standard ("else ".toList ++ a.statement) where
  tight := .append ⟨'e', _, rfl, rfl⟩ a.spoken.tight
  closing := by
    have helse : Text.cut? Delimiters.standard.closing "else".toList = none := rfl
    change Text.cut? _ ("else".toList ++ ' ' :: a.statement) = none
    rw [Text.cut?_append_space isWord_closing (Delimiters.closing_ne_nil _) rfl helse,
      a.spoken.closing]
    rfl
  comment := rfl

namespace Chain

variable {body : List Char} (otherwise : Option Body) (links : List Arm)

theorem apart_finish (hbody : IsBody body) : Pieces.Apart (finish body otherwise) := by
  have hend : Spoken .standard "end".toList := Segment.spoken_end rfl
  cases otherwise with
  | none => exact List.forall_mem_singleton.2 ⟨hbody, hend⟩
  | some o =>
    exact List.forall_mem_cons.2 ⟨⟨hbody, Segment.spoken_else rfl⟩,
      List.forall_mem_singleton.2 ⟨o.isBody, hend⟩⟩

theorem apart_flat (hbody : IsBody body) : Pieces.Apart (flat otherwise body links) := by
  induction links generalizing body with
  | nil => exact apart_finish otherwise hbody
  | cons l links ih =>
    exact List.forall_mem_cons.2 ⟨⟨hbody, l.spoken_else⟩, ih l.body.isBody⟩

theorem apart_deep (hbody : IsBody body) : Pieces.Apart (deep otherwise body links) := by
  induction links generalizing body with
  | nil => exact apart_finish otherwise hbody
  | cons l links ih =>
    exact List.forall_mem_cons.2 ⟨⟨hbody, Segment.spoken_else rfl⟩, List.forall_mem_cons.2
      ⟨⟨isBody_nil, l.spoken⟩, List.forall_mem_append.2 ⟨ih l.body.isBody,
        List.forall_mem_singleton.2 ⟨isBody_nil, Segment.spoken_end rfl⟩⟩⟩⟩

/-- Both sources have the same bodies, but for empty ones. -/
theorem exists_flat_iff {Q : List Char → Prop} (hnil : ¬ Q []) :
    (∃ p ∈ flat otherwise body links, Q p.1) ↔ ∃ p ∈ deep otherwise body links, Q p.1 := by
  induction links generalizing body with
  | nil => rfl
  | cons l links ih => simp [flat, deep, ih, hnil, or_and_right, exists_or]

end Chain

theorem sameTemplates_parse {s : Settings} {source source' : List Char}
    (h : Build.Twins Eq Eq (compileSource s source) (compileSource s source')) (name : String) :
    SameTemplates (parse s name (String.ofList source)).1 (parse s name (String.ofList source')).1 := by
  unfold parse EStateM.run
  rw [String.toList_ofList, String.toList_ofList]
  have hend := h {} {} rfl
  generalize compileSource s source {} = r at hend ⊢
  generalize compileSource s source' {} = r' at hend ⊢
  cases hend with
  | ok hvalue hb =>
    cases hvalue
    cases hb
    exact .ok rfl
  | error => exact .error

section

variable {s : Settings} {ps ps' : Pieces}

/-- A source with a statement that begins with a brace cannot be compiled. -/
theorem compileSource_braced (hs : s.delimiters = .standard) (hps : ps.Apart)
    (hlast : ∃ p ∈ ps, p.1.getLast? = some '\x7b') :
    Build.Ends (fun _ => False) (fun _ => True) (compileSource s ps.source) := by
  have hbrace := Pieces.scan_source_braced hps hlast 1
  unfold compileSource Segment.ofSource
  rw [hs]
  cases hscan : Segment.scan .standard false 1 ps.source with
  | error f => exact .throw trivial
  | ok segments =>
    rw [hscan] at hbrace
    exact compile_braced hbrace [] []

/-- Pieces that are found again are compiled to the same if their segments are. -/
theorem twins_compileSource (hs : s.delimiters = .standard) (hps : ps.Apart)
    (hlast : ¬ ∃ p ∈ ps, p.1.getLast? = some '\x7b') (hps' : ps'.Apart)
    (hlast' : ¬ ∃ p ∈ ps', p.1.getLast? = some '\x7b')
    (h : Twins (fun segments segments' =>
      Build.Twins Eq Eq (compile [] [] segments) (compile [] [] segments')) (ps.scan 1) (ps'.scan 1)) :
    Build.Twins Eq Eq (compileSource s ps.source) (compileSource s ps'.source) := by
  unfold compileSource Segment.ofSource
  rw [hs, Pieces.scan_source hps (fun p hp heq => hlast ⟨p, hp, heq⟩),
    Pieces.scan_source hps' fun p hp heq => hlast' ⟨p, hp, heq⟩]
  generalize ps.scan 1 = e at h ⊢
  generalize ps'.scan 1 = e' at h ⊢
  cases h with
  | ok h => exact h
  | error => exact .throw _ _

end

/-- **A chain of branches is compiled to the same as a branch in every `else` part**, on the same lines,
or neither source can be compiled. -/
theorem Chain.sameTemplates (c : Chain) {s : Settings} (hs : s.delimiters = .standard) (name : String) :
    SameTemplates (parse s name (String.ofList c.flatSource)).1
      (parse s name (String.ofList c.deepSource)).1 := by
  have hfirst : IsBody [] ∧ Spoken .standard c.first.statement := ⟨isBody_nil, c.first.spoken⟩
  have hflat : Pieces.Apart (([], c.first.statement) :: flat c.otherwise c.first.body.source c.links) :=
    List.forall_mem_cons.2 ⟨hfirst, apart_flat _ _ c.first.body.isBody⟩
  have hdeep : Pieces.Apart (([], c.first.statement) :: deep c.otherwise c.first.body.source c.links) :=
    List.forall_mem_cons.2 ⟨hfirst, apart_deep _ _ c.first.body.isBody⟩
  have hsame : (∃ p ∈ flat c.otherwise c.first.body.source c.links, p.1.getLast? = some '\x7b') ↔
      ∃ p ∈ deep c.otherwise c.first.body.source c.links, p.1.getLast? = some '\x7b' :=
    exists_flat_iff (Q := fun s => s.getLast? = some '\x7b') c.otherwise c.links (by simp)
  refine sameTemplates_parse ?_ name
  by_cases hbrace : ∃ p ∈ flat c.otherwise c.first.body.source c.links, p.1.getLast? = some '\x7b'
  · exact .ofEnds (compileSource_braced hs hflat (by simpa using hbrace))
      (compileSource_braced hs hdeep (by simpa using hsame.1 hbrace))
  · refine twins_compileSource hs hflat (by simpa using hbrace) hdeep
      (by simpa using fun h => hbrace (hsame.2 h)) ?_
    rw [Pieces.scan, Pieces.scan, Segment.scan_last rfl]
    exact (twins_scan c.otherwise c.chained c.first.body.isBody _).bind fun _ _ h =>
      .ok (h.1.compile_branch c.first _)

end Stencil.Delimited
