import Stencil.Proofs.Delimited.Bodies
import Stencil.Proofs.Template.Interpolation

/-!
# The division of a delimited source

A source is divided at its actions, the first one first. Nothing of it is lost on the way to the
segments but comments, the trim marks, and white space beside an action: in it at its ends, and outside
where it has a trim mark.

* `StartsMarked` and `EndsMarked` are the trim marks of an action, `States` says what is left of it, and
  `IsCut` what is left of a text between two actions.
* `Divides` says which segments the texts and actions of a source come to, and `Faulty` which of them
  cannot be read.
* `ofSource_divides` says that a source is scanned to these segments, or fails for that reason, in the
  only way in which it can be taken apart.
-/

namespace Stencil.Delimited

open Interpolated (Splits span)

/-! ## Trim marks and comments -/

/-- The action starts with a trim mark: a dash in front of white space. -/
def StartsMarked (action : List Char) : Prop :=
  ∃ c s, action = '-' :: c :: s ∧ Text.isSpace c = true

/-- The action ends in a trim mark: a dash behind white space. -/
def EndsMarked (action : List Char) : Prop :=
  ∃ s c, action = s ++ [c, '-'] ∧ Text.isSpace c = true

/-- The statement is a comment. -/
def IsComment (statement : List Char) : Prop := ['/', '*'] <+: statement

/-- The comment is closed. -/
def IsClosed (statement : List Char) : Prop := ['*', '/'] <:+ statement

variable {action statement text kept : List Char}

theorem hasTrimMark_iff : hasTrimMark action = true ↔ StartsMarked action := by
  constructor
  · intro h
    unfold hasTrimMark at h
    split at h
    · exact ⟨_, _, rfl, h⟩
    · cases h
  · rintro ⟨c, s, rfl, hc⟩
    exact hc

theorem hasTrimMark_reverse_iff : hasTrimMark action.reverse = true ↔ EndsMarked action := by
  rw [hasTrimMark_iff]
  constructor
  · rintro ⟨c, s, hs, hc⟩
    refine ⟨s.reverse, c, ?_, hc⟩
    rw [← List.reverse_reverse action, hs]
    simp
  · rintro ⟨s, c, rfl, hc⟩
    exact ⟨c, s.reverse, by simp, hc⟩

theorem opensComment_iff : opensComment statement = true ↔ IsComment statement := Text.startsWith_iff

theorem closesComment_iff : closesComment statement = true ↔ IsClosed statement := Text.endsWith_iff

/-- A dash in front ends no action: there would have to be white space before it. -/
theorem endsMarked_cons_iff {s : List Char} : EndsMarked ('-' :: s) ↔ EndsMarked s := by
  constructor
  · rintro ⟨t, c, ht, hc⟩
    cases t with
    | nil =>
      obtain rfl : '-' = c := by simpa using congrArg List.head? ht
      cases hc
    | cons e t => exact ⟨t, c, (List.cons.inj ht).2, hc⟩
  · rintro ⟨t, c, rfl, hc⟩
    exact ⟨'-' :: t, c, rfl, hc⟩

/-- Taking the mark at the end away. -/
theorem eq_append_of_endsMarked {s : List Char} :
    s = (if hasTrimMark s.reverse then s.dropLast else s) ++
      if hasTrimMark s.reverse then ['-'] else [] := by
  cases hlast : hasTrimMark s.reverse with
  | false => simp
  | true =>
    obtain ⟨t, c, rfl, -⟩ := hasTrimMark_reverse_iff.1 hlast
    have ht : t ++ [c, '-'] = (t ++ [c]) ++ ['-'] := by simp
    rw [ht, List.dropLast_concat]
    simp

/-- An action is made of its trim marks and what is between them. -/
theorem trimMarks_eq {marked : List Char} {first last : Bool}
    (h : trimMarks action = (marked, first, last)) : (first = true ↔ StartsMarked action) ∧
      (last = true ↔ EndsMarked action) ∧
      action = (if first then ['-'] else []) ++ (marked ++ if last then ['-'] else []) := by
  cases hfirst : hasTrimMark action with
  | false =>
    unfold trimMarks at h
    rw [hfirst] at h
    cases h
    exact ⟨by rw [← hasTrimMark_iff, hfirst], hasTrimMark_reverse_iff, eq_append_of_endsMarked⟩
  | true =>
    have hmarked := hasTrimMark_iff.1 hfirst
    obtain ⟨c, s, rfl, -⟩ := hmarked
    unfold trimMarks at h
    rw [hfirst] at h
    cases h
    refine ⟨iff_of_true rfl (hasTrimMark_iff.1 hfirst), ?_, ?_⟩
    · rw [endsMarked_cons_iff]
      exact hasTrimMark_reverse_iff
    · exact congrArg ('-' :: ·) eq_append_of_endsMarked

/-! ## Texts and statements -/

/-- White space is cut at the start of a text under a condition, and nothing else. -/
def IsCutAtStart (p : Prop) (text kept : List Char) : Prop :=
  ∃ v, text = v ++ kept ∧ Text.isBlank v = true ∧ (¬ p → v = []) ∧ (p → Text.NoSpaceFirst kept)

/-- White space is cut at the end of a text under a condition, and nothing else. -/
def IsCutAtEnd (p : Prop) (text kept : List Char) : Prop :=
  ∃ w, text = kept ++ w ∧ Text.isBlank w = true ∧ (¬ p → w = []) ∧ (p → Text.NoSpaceLast kept)

/-- What is left of a text between two actions: it is cut at its start if the action before it ends in a
trim mark, and at its end if the action behind it starts with one. -/
def IsCut (before behind : Option (List Char)) (text kept : List Char) : Prop :=
  ∃ middle, IsCutAtStart (∃ a ∈ before, EndsMarked a) text middle ∧
    IsCutAtEnd (∃ a ∈ behind, StartsMarked a) middle kept

/-- The statement of an action: the action without its trim marks and without white space at the ends. -/
def States (action statement : List Char) : Prop :=
  ∃ first last v w, action = first ++ ((v ++ (statement ++ w)) ++ last) ∧
    (StartsMarked action ∧ first = ['-'] ∨ ¬ StartsMarked action ∧ first = []) ∧
    (EndsMarked action ∧ last = ['-'] ∨ ¬ EndsMarked action ∧ last = []) ∧
    Text.isBlank v = true ∧ Text.isBlank w = true ∧
    Text.NoSpaceFirst statement ∧ Text.NoSpaceLast statement

theorem isCutAtStart_iff {p : Prop} {trimmed : Bool} (hp : trimmed = true ↔ p) :
    IsCutAtStart p text kept ↔ kept = if trimmed then Text.trimStart text else text := by
  rw [IsCutAtStart, ← hp]
  cases trimmed with
  | false =>
    constructor
    · rintro ⟨v, htext, -, hv, -⟩
      rw [hv Bool.false_ne_true] at htext
      exact htext.symm
    · rintro rfl
      exact ⟨[], rfl, rfl, fun _ => rfl, nofun⟩
  | true =>
    rw [if_pos rfl, eq_comm (a := kept), Text.trimStart_eq_iff]
    simp

theorem isCutAtEnd_iff {p : Prop} {trimmed : Bool} (hp : trimmed = true ↔ p) :
    IsCutAtEnd p text kept ↔ kept = if trimmed then Text.trimEnd text else text := by
  rw [IsCutAtEnd, ← hp]
  cases trimmed with
  | false =>
    constructor
    · rintro ⟨w, htext, -, hw, -⟩
      rw [hw Bool.false_ne_true, List.append_nil] at htext
      exact htext.symm
    · rintro rfl
      exact ⟨[], (List.append_nil _).symm, rfl, fun _ => rfl, nofun⟩
  | true =>
    rw [if_pos rfl, eq_comm (a := kept), Text.trimEnd_eq_iff]
    simp

theorem isCut_iff {before behind : Option (List Char)} {trimmed first : Bool}
    (htrimmed : trimmed = true ↔ ∃ a ∈ before, EndsMarked a)
    (hfirst : first = true ↔ ∃ a ∈ behind, StartsMarked a) :
    IsCut before behind text kept ↔ kept = Segment.textBefore trimmed first text := by
  simp only [IsCut, isCutAtStart_iff htrimmed, isCutAtEnd_iff hfirst, exists_eq_left,
    Segment.textBefore]

theorem states_iff {marked : List Char} {first last : Bool}
    (hmarks : trimMarks action = (marked, first, last)) :
    States action statement ↔ statement = Text.trim marked := by
  obtain ⟨hfirst, hlast, haction⟩ := trimMarks_eq hmarks
  rw [eq_comm, Text.trim_eq_iff]
  constructor
  · rintro ⟨f, l, v, w, heq, hf, hl, hspaces⟩
    rw [← hfirst] at hf
    rw [← hlast] at hl
    obtain rfl : f = if first then ['-'] else [] := by cases first <;> simpa using hf
    obtain rfl : l = if last then ['-'] else [] := by cases last <;> simpa using hl
    have hmarked := List.append_cancel_right (List.append_cancel_left (haction.symm.trans heq))
    exact ⟨v, w, hmarked, hspaces⟩
  · rintro ⟨v, w, rfl, hv, hw, hstart, hend⟩
    refine ⟨_, _, v, w, haction, ?_, ?_, hv, hw, hstart, hend⟩
    · rw [← hfirst]
      cases first <;> simp
    · rw [← hlast]
      cases last <;> simp

/-! ## Sources -/

/-- The segments of a source that is taken apart into texts, each with the action behind it, and the text
at the end. What stands before them are the part `done` of the source and the action `before`. -/
inductive Divides (d : Delimiters) (last : List Char) : List Char → Option (List Char) →
    List (List Char × List Char) → List Segment → Prop
  /-- The text at the end holds no left delimiter. -/
  | last {done kept : List Char} {before : Option (List Char)} (hlast : ¬ d.opening <:+: last)
    (hkept : IsCut before none last kept) :
    Divides d last done before [] (Segment.ofText kept)
  /-- A comment leaves nothing. -/
  | comment {done text action statement kept : List Char} {before : Option (List Char)}
    {parts : List (List Char × List Char)} {segments : List Segment}
    (hkept : IsCut before (some action) text kept) (haction : States action statement)
    (hcomment : IsComment statement) (hclosed : IsClosed statement)
    (h : Divides d last (done ++ (text ++ span d action)) (some action) parts segments) :
    Divides d last done before ((text, action) :: parts) (Segment.ofText kept ++ segments)
  /-- An action has the line of its left delimiter. -/
  | action {done text action statement kept : List Char} {before : Option (List Char)}
    {parts : List (List Char × List Char)} {segments : List Segment}
    (hkept : IsCut before (some action) text kept) (haction : States action statement)
    (hcomment : ¬ IsComment statement)
    (h : Divides d last (done ++ (text ++ span d action)) (some action) parts segments) :
    Divides d last done before ((text, action) :: parts)
      (Segment.ofText kept ++ .action statement (1 + Text.lineFeeds (done ++ text)) :: segments)

/-- The first of the actions of a source that cannot be read. -/
inductive Faulty (d : Delimiters) (last : List Char) : List Char → List (List Char × List Char) →
    Fault → Prop
  /-- There is no right delimiter behind the first left one in the text at the end. -/
  | unclosed {done text rest : List Char} (hlast : last = text ++ (d.opening ++ rest))
    (hfirst : Text.Leftmost d.opening text last) :
    Faulty d last done [] { cause := .unclosedAction, line := 1 + Text.lineFeeds (done ++ text) }
  /-- A comment is not closed. -/
  | comment {done text action statement : List Char} {parts : List (List Char × List Char)}
    (haction : States action statement) (hcomment : IsComment statement)
    (hopen : ¬ IsClosed statement) :
    Faulty d last done ((text, action) :: parts)
      { cause := .unclosedComment, line := 1 + Text.lineFeeds (done ++ text) }
  /-- The action can be read. -/
  | later {done text action statement : List Char} {parts : List (List Char × List Char)} {f : Fault}
    (haction : States action statement) (hread : IsComment statement → IsClosed statement)
    (h : Faulty d last (done ++ (text ++ span d action)) parts f) :
    Faulty d last done ((text, action) :: parts) f

namespace Segment

variable {d : Delimiters} {s before inner rest marked done : List Char} {trimmed first last : Bool}
  {i : Interpolated} {segments : List Segment} {behind : Option (List Char)} {line : Nat} {f : Fault}

/-- What a text without statements leaves open. -/
theorem scan_literal (h : ¬ Interpolated.Holds d s) (trimmed : Bool) (line : Nat) :
    (¬ d.opening <:+: s ∧
      scan d trimmed line s = .ok (ofText (textBefore trimmed false s))) ∨
    ∃ before rest, s = before ++ (d.opening ++ rest) ∧ Text.Leftmost d.opening before s ∧
      scan d trimmed line s =
        .error { cause := .unclosedAction, line := line + Text.lineFeeds before } := by
  cases hopening : Text.cut? d.opening s with
  | none => exact .inl ⟨Text.cut?_eq_none_iff.1 hopening, scan_last hopening⟩
  | some p =>
    obtain ⟨before, rest⟩ := p
    obtain ⟨hs, hfirst⟩ := Text.cut?_eq_some_iff.1 hopening
    refine .inr ⟨before, rest, hs, hfirst, scan_unclosed hopening ?_⟩
    rw [Text.cut?_eq_none_iff]
    rintro ⟨statement, behind, rfl⟩
    exact h ⟨statement, before, behind, by simp [hs, span]⟩

/-- The line behind an action. -/
theorem lineFeeds_behind (d : Delimiters) (done before inner : List Char) :
    1 + Text.lineFeeds done + Text.lineFeeds before +
        Text.lineFeeds (d.opening ++ inner ++ d.closing) =
      1 + Text.lineFeeds (done ++ (before ++ span d inner)) := by
  simp only [span, Text.lineFeeds_append]
  omega

section Action

variable (hmarks : trimMarks inner = (marked, first, last))

include hmarks

/-- A source that begins with a text and an action is scanned if the action can be read and what stands
behind it is scanned. -/
theorem scan_cons_eq_ok_iff
    (hopening : Text.Leftmost d.opening before (before ++ (span d inner ++ s)))
    (hclosing : Text.Leftmost d.closing inner (inner ++ (d.closing ++ s))) :
    scan d trimmed (1 + Text.lineFeeds done) (before ++ (span d inner ++ s)) = .ok segments ↔
      (IsComment (Text.trim marked) → IsClosed (Text.trim marked)) ∧ ∃ more,
        scan d last (1 + Text.lineFeeds (done ++ (before ++ span d inner))) s = .ok more ∧
        segments = ofText (textBefore trimmed first before) ++
          ((if opensComment (Text.trim marked) then []
            else [.action (Text.trim marked) (1 + Text.lineFeeds (done ++ before))]) ++ more) := by
  rw [scan_next (Interpolated.cut?_opening hopening)
    (Interpolated.cut?_closing hclosing) hmarks, lineFeeds_behind,
    ← opensComment_iff, ← closesComment_iff, Text.lineFeeds_append done before, ← Nat.add_assoc]
  cases opensComment (Text.trim marked) <;> cases closesComment (Text.trim marked) <;>
    cases scan d last (1 + Text.lineFeeds (done ++ (before ++ span d inner))) s <;>
    simp [bind, Except.bind, pure, Except.pure, eq_comm]

theorem scan_cons_eq_error_iff
    (hopening : Text.Leftmost d.opening before (before ++ (span d inner ++ s)))
    (hclosing : Text.Leftmost d.closing inner (inner ++ (d.closing ++ s))) :
    scan d trimmed (1 + Text.lineFeeds done) (before ++ (span d inner ++ s)) = .error f ↔
      (IsComment (Text.trim marked) ∧ ¬ IsClosed (Text.trim marked) ∧
        f = { cause := .unclosedComment, line := 1 + Text.lineFeeds (done ++ before) }) ∨
      (IsComment (Text.trim marked) → IsClosed (Text.trim marked)) ∧
        scan d last (1 + Text.lineFeeds (done ++ (before ++ span d inner))) s = .error f := by
  rw [scan_next (Interpolated.cut?_opening hopening)
    (Interpolated.cut?_closing hclosing) hmarks, lineFeeds_behind,
    ← opensComment_iff, ← closesComment_iff, Text.lineFeeds_append done before, ← Nat.add_assoc]
  cases opensComment (Text.trim marked) <;> cases closesComment (Text.trim marked) <;>
    cases scan d last (1 + Text.lineFeeds (done ++ (before ++ span d inner))) s <;>
    simp [bind, Except.bind, pure, Except.pure, eq_comm]

end Action

end Segment

section Action

variable {d : Delimiters} {end' done marked : List Char} {before : Option (List Char)}
  {trimmed first last : Bool} {parts : List (List Char × List Char)} {segments : List Segment}
  {f : Fault} (hmarks : trimMarks action = (marked, first, last))

include hmarks

theorem divides_cons_iff (htrimmed : trimmed = true ↔ ∃ a ∈ before, EndsMarked a) :
    Divides d end' done before ((text, action) :: parts) segments ↔
      (IsComment (Text.trim marked) → IsClosed (Text.trim marked)) ∧ ∃ more,
        Divides d end' (done ++ (text ++ span d action)) (some action) parts more ∧
        segments = Segment.ofText (Segment.textBefore trimmed first text) ++
          ((if opensComment (Text.trim marked) then []
            else [.action (Text.trim marked) (1 + Text.lineFeeds (done ++ text))]) ++ more) := by
  have hfirst : first = true ↔ ∃ a ∈ some action, StartsMarked a := by
    simpa using (trimMarks_eq hmarks).1
  constructor
  · intro h
    cases h with
    | comment hkept haction hcomment hclosed h =>
      obtain rfl := (isCut_iff htrimmed hfirst).1 hkept
      obtain rfl := (states_iff hmarks).1 haction
      refine ⟨fun _ => hclosed, _, h, ?_⟩
      rw [if_pos (opensComment_iff.2 hcomment), List.nil_append]
    | action hkept haction hcomment h =>
      obtain rfl := (isCut_iff htrimmed hfirst).1 hkept
      obtain rfl := (states_iff hmarks).1 haction
      refine ⟨fun h => absurd h hcomment, _, h, ?_⟩
      rw [if_neg ((not_congr opensComment_iff).2 hcomment), List.singleton_append]
  · rintro ⟨hread, more, h, rfl⟩
    have hkept : IsCut before (some action) text _ := (isCut_iff htrimmed hfirst).2 rfl
    have haction := (states_iff hmarks).2 rfl
    by_cases hcomment : IsComment (Text.trim marked)
    · rw [if_pos (opensComment_iff.2 hcomment), List.nil_append]
      exact .comment hkept haction hcomment (hread hcomment) h
    · rw [if_neg ((not_congr opensComment_iff).2 hcomment), List.singleton_append]
      exact .action hkept haction hcomment h

theorem faulty_cons_iff : Faulty d end' done ((text, action) :: parts) f ↔
    (IsComment (Text.trim marked) ∧ ¬ IsClosed (Text.trim marked) ∧
        f = { cause := .unclosedComment, line := 1 + Text.lineFeeds (done ++ text) }) ∨
      (IsComment (Text.trim marked) → IsClosed (Text.trim marked)) ∧
        Faulty d end' (done ++ (text ++ span d action)) parts f := by
  constructor
  · intro h
    cases h with
    | comment haction hcomment hopen =>
      obtain rfl := (states_iff hmarks).1 haction
      exact .inl ⟨hcomment, hopen, rfl⟩
    | later haction hread h =>
      obtain rfl := (states_iff hmarks).1 haction
      exact .inr ⟨hread, h⟩
  · have haction := (states_iff hmarks).2 rfl
    rintro (⟨hcomment, hopen, rfl⟩ | ⟨hread, h⟩)
    · exact .comment haction hcomment hopen
    · exact .later haction hread h

end Action

/-- **A source is scanned to the segments that its texts and actions come to.** -/
theorem scan_eq_ok_iff {d : Delimiters} {s : List Char} {i : Interpolated} (h : Splits d s i) :
    ∀ {done : List Char} {before : Option (List Char)} {trimmed : Bool} {segments : List Segment},
      (trimmed = true ↔ ∃ a ∈ before, EndsMarked a) →
      (Segment.scan d trimmed (1 + Text.lineFeeds done) s = .ok segments ↔
        Divides d i.rest done before i.parts segments) := by
  induction h with
  | @literal s h =>
    intro done before trimmed segments htrimmed
    have hcut : ∀ kept, IsCut before none s kept ↔ kept = Segment.textBefore trimmed false s :=
      fun kept => isCut_iff htrimmed (by simp)
    rcases Segment.scan_literal h trimmed (1 + Text.lineFeeds done) with
      ⟨hlast, hscan⟩ | ⟨text, rest, hs, -, hscan⟩
    · rw [hscan]
      constructor
      · rintro ⟨⟩
        exact .last hlast ((hcut _).2 rfl)
      · rintro ⟨-, hkept⟩
        rw [(hcut _).1 hkept]
    · rw [hscan]
      constructor
      · exact nofun
      · rintro ⟨hlast, -⟩
        exact absurd ⟨text, rest, by simp [hs, Interpolated.literal]⟩ hlast
  | @lead text action s i hopening hclosing _ ih =>
    intro done before trimmed segments htrimmed
    obtain ⟨marked, first, last, hmarks⟩ : ∃ marked first last,
      trimMarks action = (marked, first, last) := ⟨_, _, _, rfl⟩
    have hlast : last = true ↔ ∃ a ∈ some action, EndsMarked a := by
      simpa using (trimMarks_eq hmarks).2.1
    rw [Segment.scan_cons_eq_ok_iff hmarks hopening hclosing]
    simp only [ih hlast]
    exact (divides_cons_iff hmarks htrimmed).symm

/-- **It fails at the first action that cannot be read.** -/
theorem scan_eq_error_iff {d : Delimiters} {s : List Char} {i : Interpolated} (h : Splits d s i) :
    ∀ {done : List Char} {trimmed : Bool} {f : Fault},
      Segment.scan d trimmed (1 + Text.lineFeeds done) s = .error f ↔
        Faulty d i.rest done i.parts f := by
  induction h with
  | @literal s h =>
    intro done trimmed f
    rcases Segment.scan_literal h trimmed (1 + Text.lineFeeds done) with
      ⟨hlast, hscan⟩ | ⟨text, rest, hs, hfirst, hscan⟩
    · rw [hscan]
      constructor
      · exact nofun
      · rintro ⟨hs, -⟩
        exact absurd ⟨_, _, (hs.trans (List.append_assoc ..).symm).symm⟩ hlast
    · rw [hscan, Nat.add_assoc, ← Text.lineFeeds_append]
      constructor
      · rintro ⟨⟩
        exact .unclosed hs hfirst
      · intro hfaulty
        cases hfaulty with
        | unclosed hs' hfirst' =>
          have hcut := Text.cut?_eq_some_iff.2 ⟨hs, hfirst⟩
          have hcut' := Text.cut?_eq_some_iff.2 ⟨hs', hfirst'⟩
          obtain ⟨rfl, -⟩ := Prod.mk.inj (Option.some.inj (hcut.symm.trans hcut'))
          rfl
  | @lead text action s i hopening hclosing _ ih =>
    intro done trimmed f
    obtain ⟨marked, first, last, hmarks⟩ : ∃ marked first last,
      trimMarks action = (marked, first, last) := ⟨_, _, _, rfl⟩
    rw [Segment.scan_cons_eq_error_iff hmarks hopening hclosing]
    simp only [ih]
    exact (faulty_cons_iff hmarks).symm

theorem exists_faulty_iff {d : Delimiters} {last : List Char} {parts : List (List Char × List Char)} :
    ∀ {done : List Char}, (∃ f, Faulty d last done parts f) ↔ d.opening <:+: last ∨
      ∃ p ∈ parts, ∃ statement, States p.2 statement ∧ IsComment statement ∧ ¬ IsClosed statement := by
  induction parts with
  | nil =>
    intro done
    simp only [List.not_mem_nil, false_and, exists_false, or_false]
    constructor
    · rintro ⟨_, ⟨hlast, -⟩⟩
      exact ⟨_, _, (hlast.trans (List.append_assoc ..).symm).symm⟩
    · intro hinfix
      obtain ⟨⟨text, rest⟩, hcut⟩ := Option.ne_none_iff_exists'.1 fun hnone =>
        Text.cut?_eq_none_iff.1 hnone hinfix
      obtain ⟨hlast, hfirst⟩ := Text.cut?_eq_some_iff.1 hcut
      exact ⟨_, .unclosed hlast hfirst⟩
  | cons p parts ih =>
    intro done
    obtain ⟨text, action⟩ := p
    obtain ⟨marked, first, last', hmarks⟩ : ∃ marked first last,
      trimMarks action = (marked, first, last) := ⟨_, _, _, rfl⟩
    simp only [faulty_cons_iff hmarks, exists_or, exists_and_left, exists_eq, and_true, ih,
      List.mem_cons, or_and_right, exists_eq_left, states_iff hmarks]
    by_cases hopen : IsComment (Text.trim marked) ∧ ¬ IsClosed (Text.trim marked)
    · exact iff_of_true (.inl hopen) (.inr (.inl hopen))
    · have hread : IsComment (Text.trim marked) → IsClosed (Text.trim marked) := fun hcomment =>
        Classical.byContradiction fun hclosed => hopen ⟨hcomment, hclosed⟩
      simp only [hopen, false_or, and_iff_right hread]

/-- **A delimited source is read without loss.** There is one way to take it apart into texts and
actions, each action from the first left delimiter that is left to the first right one behind it. It is
scanned to the segments that these come to; it fails exactly if a left delimiter has no right one behind
it or a comment is not closed, and then at the first such action. -/
theorem ofSource_divides (d : Delimiters) (source : List Char) :
    ∃ i, (∀ j, Splits d source j ↔ j = i) ∧ i.source d = source ∧
      (∀ segments, Segment.ofSource d source = .ok segments ↔
        Divides d i.rest [] none i.parts segments) ∧
      (∀ f, Segment.ofSource d source = .error f ↔ Faulty d i.rest [] i.parts f) ∧
      ((∃ f, Segment.ofSource d source = .error f) ↔ d.opening <:+: i.rest ∨
        ∃ p ∈ i.parts, ∃ statement, States p.2 statement ∧ IsComment statement ∧
          ¬ IsClosed statement) := by
  have hsplits := Interpolated.splits_scan d source
  have herror : ∀ f, Segment.ofSource d source = .error f ↔
    Faulty d _ [] _ f := fun f => @scan_eq_error_iff _ _ _ hsplits [] _ _
  refine ⟨_, fun j => ?_, hsplits.source_eq, fun segments => ?_, herror, ?_⟩
  · rw [Interpolated.splits_iff, eq_comm]
  · exact @scan_eq_ok_iff _ _ _ hsplits [] _ _ _ (by simp)
  · simp only [herror, exists_faulty_iff]

/-- The dashes of an action share the white space between them, and both of them trim. -/
example : Segment.ofSource .standard "a \x7b\x7b- -\x7d\x7d\n\x7b\x7b/* b */\x7d\x7d c".toList =
    .ok [.text "a".toList, .action [] 1, .text " c".toList] := by
  cbv

end Stencil.Delimited
