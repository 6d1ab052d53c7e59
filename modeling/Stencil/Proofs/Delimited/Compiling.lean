import Stencil.Proofs.Delimited.Scanning
import Stencil.Proofs.Html.Pieces
import Stencil.Proofs.Template.Building

/-!
# Compiling what was written

The source of a program is compiled to what the program says.

* `Part.Readable` says that the statements of a program can be read, and that those of its actions
  begin with no keyword.
* `compile_segments` compiles the segments of a program inside any open frames, by induction over the
  program; every branch leaves the frames as it found them.
* `parse_source` concludes for a whole source.
-/

namespace Stencil

open Text (Tight IsWord)

/-- A computation behind one that succeeds. -/
theorem Build.bind_ok {α β : Type} {act : Build α} {b b' : Builder} {a : α} (h : act b = .ok a b')
    (k : α → Build β) : (act >>= k) b = k a b' := by
  change EStateM.bind act k b = _
  unfold EStateM.bind
  rw [h]

theorem Build.pipeline_ok {subject : List Char} {p : Pipeline} (h : parsePipeline subject = .ok p)
    (line : Nat) (b : Builder) : Build.pipeline subject line b = .ok p b := by
  unfold Build.pipeline
  rw [h]
  rfl

theorem Build.action_ok {statement : List Char} {line : Nat} {b : Builder} {n : Node}
    (h : Build.actionNode b.context statement line = .ok n) :
    Build.action statement line b = .ok ⟨⟩ (b.push n) := by
  unfold Build.action
  rw [Build.bind_ok (show (get : Build Builder) b = .ok b b from rfl), h]
  rfl

namespace Part

mutual

/-- The statements of a part can be read, and an action begins with no keyword. -/
def Readable : Part → Prop
  | .text _ => True
  | .action statement =>
    Delimited.Keyword.of statement = .action ∧ Build.compiles statement = true
  | .branch _ subject body none => Tight subject ∧ (∃ p, parsePipeline subject = .ok p) ∧
    ReadableAll body
  | .branch _ subject body (some otherwise) => Tight subject ∧ (∃ p, parsePipeline subject = .ok p) ∧
    ReadableAll body ∧ ReadableAll otherwise

/-- The statements of some parts can be read, and no action begins with a keyword. -/
def ReadableAll : List Part → Prop
  | [] => True
  | p :: ps => Readable p ∧ ReadableAll ps

end

end Part

namespace Delimited

/-! ## Keywords -/

theorem firstWord_append_space {word : List Char} (hword : IsWord word) (s : List Char) :
    firstWord (word ++ ' ' :: s) = (word, s) := by
  have hall : ∀ c ∈ word, (!Text.isSpace c) = true := fun c hc => by simp [hword c hc]
  have hspace : (!Text.isSpace ' ') = false := rfl
  unfold firstWord
  simp only [List.takeWhile_append_of_pos hall, List.dropWhile_append_of_pos hall,
    List.takeWhile_cons, List.dropWhile_cons, hspace]
  simp

theorem firstWord_self {word : List Char} (hword : IsWord word) : firstWord word = (word, []) := by
  have hall : ∀ c ∈ word, (!Text.isSpace c) = true := fun c hc => by simp [hword c hc]
  have htake : word.takeWhile (fun c => !Text.isSpace c) = word := by
    rw [← List.append_nil word, List.takeWhile_append_of_pos hall, List.takeWhile_nil]
  have hdrop : word.dropWhile (fun c => !Text.isSpace c) = [] := by
    rw [← List.append_nil word, List.dropWhile_append_of_pos hall, List.dropWhile_nil]
  unfold firstWord
  simp only [htake, hdrop, List.drop_nil]

theorem isWord_word (branch : Branch) : IsWord branch.word := by
  cases branch <;> decide

theorem keyword_branch (branch : Branch) {subject : List Char} (h : Tight subject) :
    Keyword.of (branch.statement subject) = .branch branch subject := by
  unfold Keyword.of Branch.statement
  rw [firstWord_append_space (isWord_word branch)]
  simp only [h.trim_eq]
  cases branch <;> rfl

/-- A statement whose first word is no keyword is an action. -/
theorem keyword_action {statement : List Char}
    (h : ∀ word ∈ ["end", "else", "if", "range", "with", "define"],
      (firstWord statement).1 ≠ word.toList) : Keyword.of statement = .action := by
  simp only [List.forall_mem_cons] at h
  obtain ⟨hend, helse, hif, hrange, hwith, hdefine, -⟩ := h
  unfold Keyword.of
  simp only [hend, helse, hif, hrange, hwith, hdefine, decide_false, Bool.false_and, if_false,
    Bool.false_eq_true]

theorem keyword_end : Keyword.of "end".toList = .finish := rfl

theorem keyword_else : Keyword.of "else".toList = .otherwise [] := rfl

/-! ## Segments inside frames -/

section Compile

variable {frames : List Frame} {done : List Definition} {segments : List Segment} {b : Builder}
  {line : Nat}

theorem compile_text (s : List Char) : compile frames done (.text s :: segments) b =
    compile frames done segments (b.text (String.ofList s)) := rfl

theorem compile_action {statement : List Char} (hkeyword : Keyword.of statement = .action) {n : Node}
    (hn : Build.actionNode b.context statement line = .ok n) :
    compile frames done (.action statement line :: segments) b =
      compile frames done segments (b.push n) := by
  rw [compile, hkeyword]
  exact Build.bind_ok (Build.action_ok hn) _

/-- A branch is opened. -/
theorem compile_branch {branch : Branch} {subject : List Char} (h : Tight subject) {p : Pipeline}
    (hp : parsePipeline subject = .ok p) :
    compile frames done (.action (branch.statement subject) line :: segments) b =
      compile (⟨.branch branch p false none, line, b.emitted⟩ :: frames) done segments b.inner := by
  rw [compile, keyword_branch branch h]
  exact Build.bind_ok (Build.pipeline_ok hp line b) _

/-- The body of a branch ends. -/
theorem compile_else {branch : Branch} {p : Pipeline} {line' : Nat} {outer : List Node} :
    compile (⟨.branch branch p false none, line, outer⟩ :: frames) done
        (.action "else".toList line' :: segments) b =
      compile (⟨.branch branch p false (some b.nodes), line, outer⟩ :: frames) done segments
        b.inner := by
  rw [compile, keyword_else]
  rfl

/-- A branch without an `else` part is closed. -/
theorem compile_end {branch : Branch} {p : Pipeline} {line' : Nat} {outer : List Node} :
    compile (⟨.branch branch p false none, line, outer⟩ :: frames) done
        (.action "end".toList line' :: segments) b =
      compile frames done segments { b with emitted := branch.node line p b.nodes [] :: outer } := by
  rw [compile, keyword_end]
  rfl

/-- A branch with an `else` part is closed. -/
theorem compile_end_else {branch : Branch} {p : Pipeline} {line' : Nat} {body outer : List Node} :
    compile (⟨.branch branch p false (some body), line, outer⟩ :: frames) done
        (.action "end".toList line' :: segments) b =
      compile frames done segments { b with emitted := branch.node line p body b.nodes :: outer } := by
  rw [compile, keyword_end]
  rfl

end Compile

/-! ## Programs -/

namespace Segment

theorem map_unplaced_eq_append {segments ss ts : List Segment}
    (h : segments.map unplaced = ss ++ ts) :
    ∃ ss' ts', segments = ss' ++ ts' ∧ ss'.map unplaced = ss ∧ ts'.map unplaced = ts := by
  obtain ⟨ss', ts', rfl, hss, hts⟩ := List.map_eq_append_iff.1 h
  exact ⟨ss', ts', rfl, hss, hts⟩

theorem map_unplaced_eq_action {segments ss : List Segment} {statement : List Char} {line : Nat}
    (h : segments.map unplaced = .action statement line :: ss) :
    ∃ line' ss', segments = .action statement line' :: ss' ∧ ss'.map unplaced = ss := by
  obtain ⟨segment, ss', rfl, hsegment, hss⟩ := List.map_eq_cons_iff.1 h
  cases segment with
  | text s => cases hsegment
  | action statement' line' =>
    cases hsegment
    exact ⟨line', ss', rfl, hss⟩

/-- The lines have no part in what is separable. -/
theorem separable_map_unplaced {d : Delimiters} {segments : List Segment} : ∀ {pending : List Char},
    Separable d pending (segments.map unplaced) → Separable d pending segments := by
  induction segments with
  | nil => exact fun h => h
  | cons segment segments ih =>
    intro pending h
    cases segment with
    | text s => exact ⟨h.1, ih h.2⟩
    | action statement line => exact ⟨h.1, h.2.1, ih h.2.2⟩

end Segment

open Stencil.Part Segment

variable {pad : List Char}

mutual

theorem map_unplaced_segments : ∀ part : Part,
    (segments pad part).map unplaced = segments pad part
  | .text _ => rfl
  | .action _ => rfl
  | .branch _ _ body none => by
    simp only [segments, List.map_cons, List.map_append, map_unplaced_segmentsOf body, List.map_nil,
      unplaced]
  | .branch _ _ body (some otherwise) => by
    simp only [segments, List.map_cons, List.map_append, map_unplaced_segmentsOf body,
      map_unplaced_segmentsOf otherwise, List.map_nil, unplaced]

theorem map_unplaced_segmentsOf : ∀ ps : List Part,
    (segmentsOf pad ps).map unplaced = segmentsOf pad ps
  | [] => rfl
  | part :: ps => by
    rw [segmentsOf, List.map_append, map_unplaced_segments part, map_unplaced_segmentsOf ps]

end

mutual

/-- What a part adds in front of a program that is compiled. -/
theorem compile_part : ∀ {part : Part} {segments' : List Segment}, part.Readable →
    segments'.map unplaced = segments pad part → ∀ b : Builder, ∃ b' : Builder,
      (∀ ps b'', Builds pad ps b' b'' → Builds pad (part :: ps) b b'') ∧
      ∀ frames done rest, compile frames done (segments' ++ rest) b = compile frames done rest b'
  | .text s, segments', _, hsame, b => by
    obtain ⟨segment, ss, rfl, hsegment, hss⟩ := List.map_eq_cons_iff.1 hsame
    obtain rfl := List.map_eq_nil_iff.1 hss
    cases segment with
    | action statement line => cases hsegment
    | text t =>
      obtain rfl : t = s ++ pad := by simpa [unplaced] using hsegment
      exact ⟨_, fun _ _ h => .text h, fun _ _ _ => compile_text _⟩
  | .action statement, segments', hread, hsame, b => by
    obtain ⟨hkeyword, hcompiles⟩ := hread
    obtain ⟨line, ss, rfl, hss⟩ := map_unplaced_eq_action hsame
    obtain rfl := List.map_eq_nil_iff.1 hss
    rcases Build.actionNode_cases b.context statement line with ⟨-, n, hn, -⟩ | ⟨hnot, -⟩
    · exact ⟨_, fun _ _ h => .action hn h, fun _ _ _ => compile_action hkeyword hn⟩
    · rw [hcompiles] at hnot
      cases hnot
  | .branch word subject body none, segments', hread, hsame, b => by
    obtain ⟨htight, ⟨p, hp⟩, hbody⟩ := hread
    obtain ⟨line, ss, rfl, hss⟩ := map_unplaced_eq_action hsame
    obtain ⟨bodySegments, ts, rfl, hbodySegments, hts⟩ := map_unplaced_eq_append hss
    obtain ⟨line', us, rfl, hus⟩ := map_unplaced_eq_action hts
    obtain rfl := List.map_eq_nil_iff.1 hus
    obtain ⟨inside, hbuilds, hcompile⟩ := compile_segments hbody hbodySegments b.inner
    refine ⟨b.outer inside (word.node line p inside.nodes []), fun _ _ h => .branch hp hbuilds h,
      fun frames done rest => ?_⟩
    rw [List.cons_append, compile_branch htight hp, List.append_assoc, hcompile]
    exact compile_end
  | .branch word subject body (some otherwise), segments', hread, hsame, b => by
    obtain ⟨htight, ⟨p, hp⟩, hbody, hother⟩ := hread
    obtain ⟨line, ss, rfl, hss⟩ := map_unplaced_eq_action hsame
    obtain ⟨bodySegments, ts, rfl, hbodySegments, hts⟩ := map_unplaced_eq_append hss
    obtain ⟨line', us, rfl, hus⟩ := map_unplaced_eq_action hts
    obtain ⟨otherSegments, vs, rfl, hotherSegments, hvs⟩ := map_unplaced_eq_append hus
    obtain ⟨line'', ws, rfl, hws⟩ := map_unplaced_eq_action hvs
    obtain rfl := List.map_eq_nil_iff.1 hws
    obtain ⟨inside, hbuilds, hcompile⟩ := compile_segments hbody hbodySegments b.inner
    obtain ⟨inside', hbuilds', hcompile'⟩ := compile_segments hother hotherSegments inside.inner
    refine ⟨b.outer inside' (word.node line p inside.nodes inside'.nodes),
      fun _ _ h => .choice hp hbuilds hbuilds' h, fun frames done rest => ?_⟩
    rw [List.cons_append, compile_branch htight hp, List.append_assoc, hcompile, List.cons_append,
      compile_else, List.append_assoc, hcompile']
    exact compile_end_else

/-- **The segments of a program are compiled to what the program says**, whatever is open around
them. -/
theorem compile_segments : ∀ {ps : List Part} {segments' : List Segment}, ReadableAll ps →
    segments'.map unplaced = segmentsOf pad ps → ∀ b : Builder, ∃ b' : Builder, Builds pad ps b b' ∧
      ∀ frames done rest, compile frames done (segments' ++ rest) b = compile frames done rest b'
  | [], segments', _, hsame, b => by
    obtain rfl := List.map_eq_nil_iff.1 hsame
    exact ⟨b, .nil, fun _ _ _ => rfl⟩
  | part :: ps, segments', hread, hsame, b => by
    obtain ⟨hpart, hps⟩ := hread
    obtain ⟨ss, ts, rfl, hss, hts⟩ := map_unplaced_eq_append hsame
    obtain ⟨b₁, hfirst, hcompile⟩ := compile_part hpart hss b
    obtain ⟨b', hbuilds, hcompile'⟩ := compile_segments hps hts b₁
    refine ⟨b', hfirst _ _ hbuilds, fun frames done rest => ?_⟩
    rw [List.append_assoc, hcompile, hcompile']

end

/-- **The source of a program is compiled to one template**, with the nodes that the program says. -/
theorem parse_source {s : Settings} (hclosing : IsWord s.delimiters.closing) {ps : List Part}
    (hread : ReadableAll ps) (hseparable : Separable s.delimiters [] (segmentsOf pad ps))
    (name : String) : ∃ b, Builds pad ps {} b ∧
      (parse s name (String.ofList (source s.delimiters pad ps))).1 =
        .ok [(name, { name, nodes := b.nodes })] := by
  obtain ⟨segments, hsame, hscan⟩ := scan_source hclosing (segmentsOf pad ps) [] 1 hseparable
  rw [map_unplaced_segmentsOf] at hsame
  obtain ⟨b, hbuilds, hcompile⟩ := compile_segments hread hsame {}
  refine ⟨b, hbuilds, ?_⟩
  have hrun : compile [] [] (merge [] segments) {} = .ok [] b := by
    have h := hcompile [] [] []
    rw [List.append_nil] at h
    rw [← hsame] at hseparable
    rw [compile_merge segments [] [] [] _ (separable_map_unplaced hseparable)]
    exact h
  unfold parse compileSource ofSource
  rw [String.toList_ofList]
  change scan s.delimiters false 1 (source s.delimiters pad ps) = _ at hscan
  rw [hscan]
  unfold EStateM.run
  simp only [hrun]
  rfl

end Delimited

end Stencil
