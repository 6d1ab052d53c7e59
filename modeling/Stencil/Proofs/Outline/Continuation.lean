import Stencil.Proofs.Outline.Division

/-!
# Where a line ends

A line goes on with the physical lines behind it up to the first that has no mark, a backslash at its
end. Whether it goes on is decided on the joined text and not on the physical line that was read last,
which makes no difference but one: the text of a statement is trimmed, so behind a blank physical line
the text that was there before decides once more.

* `joined` is what a line and marked physical lines behind it make: the pieces without their marks.
* `isOpen_join_marked` and `isOpen_join_unmarked` say what one physical line makes of an open line, and
  `goesOn_marked` what marked ones make of it.
* `Extent.stops_iff` says when a line ends with the first physical line without a mark.
* `continuation_stops_iff` says this of all lines of a source.
-/

namespace Stencil.Outline

open Text (isSpace isBlank trim trimEnd)

namespace Line

variable {l : Line} {c : Char} {t : List Char}

/-! ## Parts and pieces -/

/-- The physical line says that the line goes on: without the white space at its end it ends in a
backslash. -/
def isMarked (raw : List Char) : Bool := (trim raw).getLast? = some '\\'

/-- What is left of a part of a line that goes on behind it: its text without the mark. -/
def piece (part : List Char) : List Char := trim (dropBackslash (trim part))

/-- A piece behind others. -/
def spaced (piece : List Char) : List Char := if piece = [] then [] else ' ' :: piece

/-- The pieces of a line and of marked physical lines behind it, joined by single spaces. -/
def joined (content : List Char) (marked : List (List Char)) : List Char :=
  piece content ++ marked.flatMap fun part => spaced (piece part)

theorem piece_of_sign (hc : c ∈ signs) (t : List Char) : piece (c :: t) = c :: kept t := by
  have hspace := not_isSpace_of_sign hc
  have htrim : ∀ s, trim (c :: s) = c :: trimEnd s := fun s => by
    rw [trim, Text.trimStart_of_not_space s hspace, Text.trimEnd_cons hspace]
  rw [piece, htrim, dropBackslash_cons (ne_backslash_of_sign hc), htrim]
  rfl

theorem content_join (h : l.isOpen = true) (raw : List Char) :
    (l.join raw).content = piece l.content ++ ' ' :: trim raw := by
  obtain ⟨c, hc, t, ht⟩ := exists_sign h
  rw [join_content hc ht, ht, piece_of_sign hc]
  rfl

/-! ## One physical line -/

theorem isActionable_eq (hc : c ∈ signs) (h : l.content = c :: t) : l.isActionable = !l.isTag := by
  have hall : signs.all (fun c => ['=', '-'].contains c == !(['%', '.', '#'].contains c)) = true := by
    decide
  unfold isActionable isTag startsIn
  rw [h]
  exact eq_of_beq (List.all_eq_true.1 hall c hc)

/-- What decides whether a line is open: the end of the text, without white space for a statement. -/
theorem isOpen_iff (hc : c ∈ signs) (h : l.content = c :: t) :
    l.isOpen = true ↔ (if l.isTag then t else trimEnd t).getLast? = some '\\' := by
  have haction := isActionable_eq hc h
  have hlast : (c :: t).getLast? = some '\\' ↔ t.getLast? = some '\\' := by
    cases t with
    | nil => simp [ne_backslash_of_sign hc]
    | cons d t => rw [List.getLast?_cons_cons]
  have hstatement : l.isTag = false → l.statement.getLast? = (trimEnd t).getLast? := fun htag => by
    rw [statement, haction, htag, h]
    exact Text.getLast?_trim t
  unfold isOpen
  cases htag : l.isTag with
  | true => simp [haction, htag, h, hlast]
  | false => simp [haction, htag, hstatement htag]

/-- Trimming what is kept of a line with something behind it. -/
theorem trimEnd_kept (t s : List Char) : trimEnd (kept t ++ ' ' :: s) =
    if isBlank s then kept t else kept t ++ ' ' :: trimEnd s := by
  have hspace : isBlank (' ' :: s) = isBlank s := by rw [Text.isBlank_cons]; rfl
  have hend : trimEnd (kept t) = kept t := Text.trimEnd_trimEnd _
  rw [Text.trimEnd_append, hspace, hend]
  split
  · rfl
  · next h =>
    rw [← List.singleton_append, Text.trimEnd_append, if_neg h]
    rfl

/-- **A marked physical line leaves a line open** and adds its piece. -/
theorem isOpen_join_marked {m : List Char} (hopen : l.isOpen = true) (hm : isMarked m = true) :
    (l.join m).isOpen = true ∧ piece (l.join m).content = piece l.content ++ spaced (piece m) := by
  obtain ⟨c, hc, t, ht⟩ := exists_sign hopen
  have hcontent := join_content hc ht m
  obtain ⟨d, hd⟩ : ∃ d, trim m = d ++ ['\\'] :=
    List.getLast?_eq_some_iff.1 (of_decide_eq_true hm)
  have htext : kept t ++ ' ' :: trim m = (kept t ++ ' ' :: d) ++ ['\\'] := by simp [hd]
  have htrim : trimEnd (kept t ++ ' ' :: trim m) = kept t ++ ' ' :: trim m := by
    rw [htext]
    exact Text.trimEnd_concat rfl _
  refine ⟨?_, ?_⟩
  · rw [isOpen_iff hc hcontent, htrim, ite_self, htext, List.getLast?_concat]
  · have hkept : kept (kept t ++ ' ' :: trim m) = trimEnd (kept t ++ ' ' :: d) := by
      rw [kept, htrim, htext, dropBackslash, if_pos List.getLast?_concat, List.dropLast_concat]
    have hpiece : piece m = trim d := by
      rw [piece, hd, dropBackslash, if_pos List.getLast?_concat, List.dropLast_concat]
    rw [hcontent, ht, piece_of_sign hc, piece_of_sign hc, hkept, hpiece, trimEnd_kept, spaced]
    cases hblank : isBlank d with
    | true => rw [if_pos rfl, if_pos (Text.trim_eq_nil_iff.2 hblank), List.append_nil]
    | false =>
      have hne : trim d ≠ [] := fun h => by
        rw [Text.trim_eq_nil_iff, hblank] at h
        cases h
      -- `d` starts as the trimmed text does
      have hstart : trim d = trimEnd d := by
        cases d with
        | nil => cases hblank
        | cons x d => rw [trim, Text.trimStart_of_not_space d (Text.isSpace_of_trim hd)]
      rw [if_neg Bool.false_ne_true, if_neg hne, hstart]
      rfl

/-- **A physical line without a mark closes a line** unless it is blank and a statement ended in a
second backslash before it. -/
theorem isOpen_join_unmarked {r : List Char} (hopen : l.isOpen = true) (hr : isMarked r = false) :
    (l.join r).isOpen = true ↔
      l.isActionable = true ∧ isBlank r = true ∧ (piece l.content).getLast? = some '\\' := by
  obtain ⟨c, hc, t, ht⟩ := exists_sign hopen
  have hcontent := join_content hc ht r
  have htag : (l.join r).isTag = l.isTag := startsIn_join hopen r _
  rw [isOpen_iff hc hcontent, htag, isActionable_eq hc ht, ht, piece_of_sign hc, trimEnd_kept,
    Text.isBlank_trim, Text.trimEnd_trim]
  cases hblank : isBlank r with
  | true =>
    have hlast : (c :: kept t).getLast? = some '\\' ↔ (kept t).getLast? = some '\\' := by
      cases kept t with
      | nil => simp [ne_backslash_of_sign hc]
      | cons d s => rw [List.getLast?_cons_cons]
    rw [Text.trim_eq_nil_iff.2 hblank, hlast]
    cases l.isTag <;> simp
  | false =>
    have hne : trim r ≠ [] := fun h => by
      rw [Text.trim_eq_nil_iff, hblank] at h
      cases h
    have hmark : (trim r).getLast? ≠ some '\\' := of_decide_eq_false hr
    have hlast : (kept t ++ ' ' :: trim r).getLast? = (trim r).getLast? := by
      rw [List.getLast?_append, List.getLast?_cons, List.getLast?_eq_some_getLast hne]
      rfl
    rw [if_neg Bool.false_ne_true, ite_self, hlast]
    simp [hmark]

/-! ## Many physical lines -/

theorem goesOn_append {a b : List (List Char)} :
    l.GoesOn (a ++ b) ↔ l.GoesOn a ∧ (a.foldl join l).GoesOn b := by
  induction a generalizing l with
  | nil => exact ⟨fun h => ⟨trivial, h⟩, And.right⟩
  | cons raw a ih => exact (and_congr_right fun _ => ih).trans and_assoc.symm

/-- **A line goes on with all marked physical lines**, and keeps their pieces. -/
theorem goesOn_marked {ms : List (List Char)} (hopen : l.isOpen = true)
    (hms : ∀ m ∈ ms, isMarked m = true) : l.GoesOn ms ∧ (ms.foldl join l).isOpen = true ∧
      piece (ms.foldl join l).content = joined l.content ms := by
  induction ms generalizing l with
  | nil => exact ⟨trivial, hopen, (List.append_nil _).symm⟩
  | cons m ms ih =>
    rw [List.forall_mem_cons] at hms
    obtain ⟨hstill, hpiece⟩ := isOpen_join_marked hopen hms.1
    obtain ⟨hgoes, hend, hjoined⟩ := ih hstill hms.2
    refine ⟨⟨hopen, hgoes⟩, hend, hjoined.trans ?_⟩
    rw [joined, joined, hpiece, List.flatMap_cons, List.append_assoc]

end Line

namespace Extent

open Line (isMarked joined)

variable {strict : Bool} {e : Extent} {behind : List (List Char × Nat)}

/-- The line ends with `r`, behind the marked physical lines `ms`, and is what they make of it. -/
structure Stops (strict : Bool) (e : Extent) (ms : List (List Char)) (r : List Char) : Prop where
  following : e.following = ms ++ [r]
  closed : (e.line strict).isOpen = false
  content : (e.line strict).content = joined (e.first strict).content ms ++ ' ' :: trim r

/-- The line is open again behind a physical line that has no mark: it is a statement, the physical line
is blank, and the text before it still ends in a backslash. -/
def Reopens (strict : Bool) (e : Extent) (ms : List (List Char)) (r : List Char) : Prop :=
  (e.first strict).isActionable = true ∧ isBlank r = true ∧
    (joined (e.first strict).content ms).getLast? = some '\\'

/-- Without a physical line that has no mark a line takes all that is left and is not completed. -/
theorem runs_out (hends : e.EndsBefore strict behind) (hopen : (e.first strict).isOpen = true)
    (hmarked : ∀ m ∈ e.following ++ behind.map Prod.fst, isMarked m = true) :
    behind = [] ∧ (e.line strict).isOpen = true := by
  have hstill : (e.line strict).isOpen = true :=
    (Line.goesOn_marked hopen fun m hm => hmarked m (List.mem_append_left _ hm)).2.1
  exact ⟨hends.closed.resolve_left (by simp [hstill]), hstill⟩

section

variable {ms rest : List (List Char)} {r : List Char}

/-- A line takes the physical lines behind it up to the first that has no mark. -/
theorem isPrefix_following (hends : e.EndsBefore strict behind) (hopen : (e.first strict).isOpen = true)
    (hbehind : e.following ++ behind.map Prod.fst = ms ++ r :: rest)
    (hms : ∀ m ∈ ms, isMarked m = true) : ms ++ [r] <+: e.following := by
  obtain ⟨hgoes, hstill, -⟩ := Line.goesOn_marked hopen hms
  have hall : (e.first strict).GoesOn (ms ++ [r]) := Line.goesOn_append.2 ⟨hgoes, hstill, trivial⟩
  have hsame : e.following ++ behind.map Prod.fst = (ms ++ [r]) ++ rest := by simp [hbehind]
  have hlength := hall.length_le (a := e.following)
    (hends.closed.imp_right fun h => by rw [h, List.map_nil]) hsame
  exact List.prefix_of_prefix_length_le ⟨rest, hsame.symm⟩ (List.prefix_append _ _) hlength

/-- **A line ends with the first physical line that has no mark**, unless this opens it again. -/
theorem stops_iff (hends : e.EndsBefore strict behind) (hopen : (e.first strict).isOpen = true)
    (hbehind : e.following ++ behind.map Prod.fst = ms ++ r :: rest)
    (hms : ∀ m ∈ ms, isMarked m = true) (hr : isMarked r = false) :
    e.Stops strict ms r ↔ ¬ e.Reopens strict ms r := by
  obtain ⟨hgoes, hstill, hpiece⟩ := Line.goesOn_marked hopen hms
  have haction : (ms.foldl Line.join (e.first strict)).isActionable = (e.first strict).isActionable :=
    hgoes.startsIn _
  have hjoin := Line.isOpen_join_unmarked hstill hr
  rw [haction, hpiece] at hjoin
  have hcontent := Line.content_join hstill r
  rw [hpiece] at hcontent
  have hfold : (ms ++ [r]).foldl Line.join (e.first strict) =
      (ms.foldl Line.join (e.first strict)).join r := by simp
  rw [Reopens, ← hjoin, Bool.not_eq_true]
  constructor
  · intro h
    have hclosed := h.closed
    rwa [line, h.following, hfold] at hclosed
  · intro hclosed
    obtain ⟨more, hmore⟩ := isPrefix_following hends hopen hbehind hms
    have hgoesOn := hends.goesOn
    rw [← hmore, Line.goesOn_append, hfold] at hgoesOn
    have hnone : more = [] := by
      cases more with
      | nil => rfl
      | cons raw more => exact absurd hgoesOn.2.1 (by simp [hclosed])
    have hfollowing : e.following = ms ++ [r] := by rw [← hmore, hnone, List.append_nil]
    have hline : e.line strict = (ms.foldl Line.join (e.first strict)).join r := by
      rw [line, hfollowing, hfold]
    exact ⟨hfollowing, hline ▸ hclosed, hline ▸ hcontent⟩

end

end Extent

/-! ## Sources -/

/-- **Where the lines of a source end**: a line that is open takes the physical lines behind it up to
the first that has no mark, without which it is not completed, and is made of their pieces. There is one
exception, a statement that ends in a second backslash before a blank line: this one it goes on
behind. -/
theorem Line.continuation_stops_iff (strict : Bool) (source : List Char) :
    ∃ es, (∀ es', Division strict (numbered source) es' ↔ es' = es) ∧
      (∀ ls, classify strict source = .ok ls → ls = es.map (Extent.line strict)) ∧
      ∀ e ∈ es, ∃ before behind, Text.lines source = before ++ e.start :: behind ∧
        e.number = before.length + 1 ∧ ((e.first strict).isOpen = true →
          ((∀ m ∈ behind, isMarked m = true) →
            e.following = behind ∧ (e.line strict).isOpen = true) ∧
          ∀ ms r rest, behind = ms ++ r :: rest → (∀ m ∈ ms, isMarked m = true) →
            isMarked r = false →
              ms ++ [r] <+: e.following ∧ (e.Stops strict ms r ↔ ¬ e.Reopens strict ms r)) := by
  obtain ⟨es, h⟩ := exists_division strict (Text.lines source) 1
  refine ⟨es, fun es' => ⟨fun h' => h'.unique h, fun heq => heq ▸ h⟩, fun ls hls => ?_, fun e he => ?_⟩
  · have hverdict : classify strict source = Extent.verdict strict 0 es := ofPhysical_division h 0
    rw [hverdict, Extent.verdict_eq_ok h.onlyLastOpen] at hls
    exact hls.2
  · obtain ⟨before, behind, hlines, hnumber, hends⟩ := h.located he
    refine ⟨before, e.following ++ behind.map Prod.fst, hlines, hnumber, fun hopen => ⟨?_, ?_⟩⟩
    · intro hmarked
      obtain ⟨rfl, hstill⟩ := Extent.runs_out hends hopen hmarked
      exact ⟨(List.append_nil _).symm, hstill⟩
    · exact fun ms r rest hbehind hms hr => ⟨Extent.isPrefix_following hends hopen hbehind hms,
        Extent.stops_iff hends hopen hbehind hms hr⟩

/-- A statement line that ends in two backslashes goes on behind the blank line that follows, and loses
both; a tag line stops there and loses one. -/
theorem Line.statement_continues_past_blank :
    classify false "= a\\\\\n\nb".toList = .ok [⟨0, "= a b".toList, 1⟩] ∧
      classify false "%a\\\\\n\nb".toList = .ok [⟨0, "%a\\ ".toList, 1⟩, ⟨0, "b".toList, 3⟩] :=
  ⟨rfl, rfl⟩

end Stencil.Outline
