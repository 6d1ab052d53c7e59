import Stencil.Delimited.Printer
import Stencil.Proofs.Html.Marker
import Stencil.Proofs.Text.Search

/-!
# Scanning what was written

The segments of a program are found again in its source, the texts next to each other as one.

* `Segment.merge` merges texts; `Segment.Separable` says that the delimiters are found where they were
  written, and that no tag is torn between texts that are merged.
* `Segment.scan_source` says that the source is then scanned to the merged segments, and
  `Segment.compile_merge` that these are compiled like the segments that were written.
-/

namespace Stencil

open Text (Tight IsWord)

theorem isWord_opening : IsWord Delimiters.standard.opening := by decide

theorem isWord_closing : IsWord Delimiters.standard.closing := by decide

namespace Delimited

namespace Segment

/-! ## Merged texts -/

/-- The segment without its line. -/
def unplaced : Segment → Segment
  | .text s => .text s
  | .action statement _ => .action statement 0

/-- The segments behind the text `pending`, with one text for all that are next to each other. -/
def merge (pending : List Char) : List Segment → List Segment
  | [] => ofText pending
  | .text s :: segments => merge (pending ++ s) segments
  | .action statement line :: segments =>
    ofText pending ++ .action statement line :: merge [] segments

/-- The statement is found again between delimiters. -/
structure Spoken (d : Delimiters) (statement : List Char) : Prop where
  tight : Tight statement
  closing : Text.cut? d.closing statement = none
  comment : opensComment statement = false

/-- The text is found again between two actions or at the end of a source. -/
def Clear (d : Delimiters) (s : List Char) : Prop :=
  Text.cut? d.opening (s ++ d.opening) = some (s, [])

/-- Behind the text `pending` every delimiter is found where it was written, and no tag is torn between
texts that are next to each other. -/
def Separable (d : Delimiters) (pending : List Char) : List Segment → Prop
  | [] => Clear d pending
  | .text s :: segments => ¬ Marker.Torn pending s ∧ Separable d (pending ++ s) segments
  | .action statement _ :: segments => Clear d pending ∧ Spoken d statement ∧ Separable d [] segments

variable {d : Delimiters}

/-- Segments that can stand behind any text. -/
def Follows (d : Delimiters) (rest : List Segment) : Prop :=
  ∀ pending, Clear d pending → Separable d pending rest

theorem follows_action {statement : List Char} {line : Nat} {rest : List Segment}
    (hstatement : Spoken d statement) (h : Separable d [] rest) :
    Follows d (.action statement line :: rest) := fun _ hpending => ⟨hpending, hstatement, h⟩

/-! ## Statements of branches -/

theorem tight_statement (branch : Branch) {subject : List Char} (h : Tight subject) :
    Tight (branch.statement subject) := by
  have hstart : ∃ c t, branch.word ++ [' '] = c :: t ∧ Text.isSpace c = false := by
    cases branch <;> exact ⟨_, _, rfl, rfl⟩
  have htext : branch.statement subject = (branch.word ++ [' ']) ++ subject := by
    simp [Branch.statement]
  rw [htext]
  exact .append hstart h

theorem spoken_statement (branch : Branch) {subject : List Char} (htight : Tight subject)
    (hclosing : Text.cut? d.closing (branch.statement subject) = none) :
    Spoken d (branch.statement subject) :=
  ⟨tight_statement branch htight, hclosing, by cases branch <;> rfl⟩

/-- A statement of a branch that ends at no double braces can be found between them. -/
theorem spoken_standard (branch : Branch) {subject : List Char} (htight : Tight subject)
    (hclosing : Text.cut? Delimiters.standard.closing subject = none) :
    Spoken .standard (branch.statement subject) := by
  have hword : Text.cut? Delimiters.standard.closing branch.word = none := by cases branch <;> rfl
  refine spoken_statement branch htight ?_
  rw [Branch.statement, Text.cut?_append_space isWord_closing (Delimiters.closing_ne_nil _) rfl hword,
    hclosing]
  rfl

theorem tight_end : Tight "end".toList := ⟨⟨'e', _, rfl, rfl⟩, ⟨"en".toList, 'd', rfl, rfl⟩⟩

theorem tight_else : Tight "else".toList := ⟨⟨'e', _, rfl, rfl⟩, ⟨"els".toList, 'e', rfl, rfl⟩⟩

theorem spoken_end (hclosing : Text.cut? d.closing "end".toList = none) : Spoken d "end".toList :=
  ⟨tight_end, hclosing, rfl⟩

theorem spoken_else (hclosing : Text.cut? d.closing "else".toList = none) :
    Spoken d "else".toList :=
  ⟨tight_else, hclosing, rfl⟩

/-! ## Scanning -/

theorem scan_text {s : List Char} (h : Text.cut? d.opening s = none) (line : Nat) :
    scan d false line s = .ok (ofText s) := by
  rw [scan]
  split
  · rfl
  · next heq => simp [h] at heq

theorem scan_action {s before t inner rest : List Char}
    (h : Text.cut? d.opening s = some (before, t))
    (h' : Text.cut? d.closing t = some (inner, rest)) (hmarks : trimMarks inner = (inner, false, false))
    (hcomment : opensComment (Text.trim inner) = false) (line : Nat) :
    scan d false line s = (scan d false (line + Text.lineFeeds before +
        Text.lineFeeds (d.opening ++ inner ++ d.closing)) rest).map fun segments =>
      ofText before ++ .action (Text.trim inner) (line + Text.lineFeeds before) :: segments := by
  rw [scan]
  split
  · next heq => simp [h] at heq
  · next before' t' heq =>
    obtain ⟨rfl, rfl⟩ : before = before' ∧ t = t' := by simpa [h] using heq
    split
    · next heq' => simp [h'] at heq'
    · next inner' rest' heq' =>
      obtain ⟨rfl, rfl⟩ : inner = inner' ∧ rest = rest' := by simpa [h'] using heq'
      simp only [hmarks, hcomment]
      rfl

theorem clear_nil : Clear d [] := by
  have h : Text.cut? d.opening (d.opening ++ []) = some ([], []) := Text.cut?_self []
  rwa [List.append_nil] at h

theorem Clear.cut?_eq_none {s : List Char} (h : Clear d s) : Text.cut? d.opening s = none := by
  cases hcut : Text.cut? d.opening s with
  | none => rfl
  | some p =>
    obtain ⟨before, rest⟩ := p
    have hmore := Text.cut?_append hcut d.opening
    have hbehind : Text.cut? d.opening (s ++ d.opening) = some (s, []) := h
    rw [hbehind, Option.some.injEq, Prod.mk.injEq] at hmore
    exact absurd (List.append_eq_nil_iff.1 hmore.2.symm).2 d.opening_ne_nil

/-- Between spaces there are no trim marks. -/
theorem trimMarks_padded (s : List Char) :
    trimMarks (' ' :: (s ++ [' '])) = (' ' :: (s ++ [' ']), false, false) := by
  have hfirst : hasTrimMark (' ' :: (s ++ [' '])) = false := rfl
  have hlast : hasTrimMark (' ' :: (s ++ [' '])).reverse = false := by
    rw [List.reverse_cons, List.reverse_append]
    rfl
  unfold trimMarks
  simp only [hfirst, Bool.false_eq_true, if_false, hlast]

/-- A statement between delimiters ends at the closing one. -/
theorem cut?_closing (hclosing : IsWord d.closing) {statement : List Char}
    (h : Text.cut? d.closing statement = none) (rest : List Char) :
    Text.cut? d.closing (' ' :: (statement ++ ' ' :: (d.closing ++ rest))) =
      some (' ' :: (statement ++ [' ']), rest) := by
  have hempty : Text.cut? d.closing [] = none := by
    rw [Text.cut?_eq_none_iff, List.infix_nil]
    exact d.closing_ne_nil
  have hfirst := Text.cut?_append_space (t := statement ++ ' ' :: (d.closing ++ rest)) hclosing
    d.closing_ne_nil (show Text.isSpace ' ' = true from rfl) hempty
  rw [List.nil_append] at hfirst
  rw [hfirst, Text.cut?_append_space hclosing d.closing_ne_nil rfl h, Text.cut?_self]
  rfl

/-- **A source is scanned to the segments that it was written from**, up to their lines. -/
theorem scan_source (hclosing : IsWord d.closing) (segments : List Segment) :
    ∀ (pending : List Char) (line : Nat), Separable d pending segments →
      ∃ segments', segments'.map unplaced = segments.map unplaced ∧
        scan d false line (pending ++ segments.flatMap (source d)) = .ok (merge pending segments') := by
  induction segments with
  | nil =>
    intro pending line h
    refine ⟨[], rfl, ?_⟩
    rw [List.flatMap_nil, List.append_nil]
    exact scan_text h.cut?_eq_none line
  | cons segment segments ih =>
    intro pending line h
    cases segment with
    | text s =>
      obtain ⟨segments', hsame, hscan⟩ := ih (pending ++ s) line h.2
      refine ⟨.text s :: segments', by simp [hsame, unplaced], ?_⟩
      rw [List.flatMap_cons, source, ← List.append_assoc]
      exact hscan
    | action statement n =>
      obtain ⟨hpending, hstatement, hrest⟩ := h
      obtain ⟨segments', hsame, hscan⟩ := ih [] (line + Text.lineFeeds pending +
        Text.lineFeeds (d.opening ++ ' ' :: (statement ++ [' ']) ++ d.closing)) hrest
      have htrim : Text.trim (' ' :: (statement ++ [' '])) = statement :=
        hstatement.tight.trim_padded (v := [' ']) (w := [' ']) rfl rfl
      have hopening := Text.cut?_append hpending
        (' ' :: (statement ++ ' ' :: (d.closing ++ segments.flatMap (source d))))
      refine ⟨.action statement (line + Text.lineFeeds pending) :: segments',
        by simp [hsame, unplaced], ?_⟩
      have hsource : pending ++ (Segment.action statement n :: segments).flatMap (source d) =
          pending ++ d.opening ++
            ' ' :: (statement ++ ' ' :: (d.closing ++ segments.flatMap (source d))) := by
        simp [source]
      rw [hsource, scan_action hopening (cut?_closing hclosing hstatement.closing _)
        (trimMarks_padded statement) (by rw [htrim]; exact hstatement.comment)]
      rw [List.nil_append] at hscan
      rw [hscan, htrim]
      rfl

end Segment

/-! ## Compiling merged texts -/

end Delimited

namespace Builder

/-- The nodes, the latest first, behind which a text is written. -/
def mergeText (s : String) : List Node → List Node
  | .text t :: ns => .text (t ++ s) :: ns
  | ns => .text s :: ns

theorem text_of_ne {s : String} (hs : s ≠ "") (b : Builder) :
    b.text s = { b with context := b.context.feed s.toList, emitted := mergeText s b.emitted } := by
  obtain ⟨context, emitted, events⟩ := b
  unfold text
  rw [if_neg hs]
  match emitted with
  | [] => rfl
  | n :: ns => cases n <;> rfl

theorem mergeText_mergeText (s t : String) (ns : List Node) :
    mergeText t (mergeText s ns) = mergeText (s ++ t) ns := by
  match ns with
  | [] => rfl
  | n :: ns =>
    cases n with
    | text u => simp only [mergeText, String.append_assoc]
    | _ => rfl

/-- Text that tears no tag can be written in two pieces. -/
theorem text_append {s t : List Char} (h : ¬ Marker.Torn s t) (b : Builder) :
    b.text (String.ofList (s ++ t)) = (b.text (String.ofList s)).text (String.ofList t) := by
  rw [String.ofList_append]
  by_cases hs : String.ofList s = ""
  · rw [hs, String.empty_append]
    rfl
  by_cases ht : String.ofList t = ""
  · rw [ht, String.append_empty]
    rfl
  have hst : String.ofList s ++ String.ofList t ≠ "" := fun heq =>
    hs (String.append_eq_empty_iff.1 heq).1
  rw [text_of_ne hst, text_of_ne ht, text_of_ne hs, String.toList_append, String.toList_ofList,
    String.toList_ofList, HtmlContext.feed_append h]
  dsimp only
  rw [mergeText_mergeText]

end Builder

namespace Delimited

namespace Segment

variable {d : Delimiters}

theorem compile_ofText (s : List Char) (frames : List Frame) (done : List Definition)
    (segments : List Segment) (b : Builder) :
    compile frames done (ofText s ++ segments) b =
      compile frames done segments (b.text (String.ofList s)) := by
  unfold ofText
  cases s with
  | nil => rfl
  | cons c s => rfl

/-- **Merged texts are compiled like those that they consist of.** -/
theorem compile_merge (segments : List Segment) : ∀ (pending : List Char) (frames : List Frame)
    (done : List Definition) (b : Builder), Separable d pending segments →
      compile frames done (merge pending segments) b =
        compile frames done segments (b.text (String.ofList pending)) := by
  induction segments with
  | nil =>
    intro pending frames done b _
    have h := compile_ofText pending frames done [] b
    rwa [List.append_nil] at h
  | cons segment segments ih =>
    intro pending frames done b h
    cases segment with
    | text s =>
      rw [merge, ih _ _ _ _ h.2, Builder.text_append h.1]
      rfl
    | action statement line =>
      have hrest : ∀ frames done, compile frames done (merge [] segments) =
          compile frames done segments := by
        intro frames done
        funext b
        exact ih [] frames done b h.2.2
      rw [merge, compile_ofText, compile, compile]
      simp only [hrest]

end Segment

end Delimited

end Stencil
