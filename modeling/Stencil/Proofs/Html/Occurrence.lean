import Stencil.Proofs.Html.Marker

/-!
# Occurrences of tags

The context of a text can be read off the occurrences of tags that a search from left to right finds,
and it can be followed over a text in two pieces wherever the cut spares the tags.

* `Marker.Occurs` says where a marker is spelled in a text, whatever its name goes on with.
  `Marker.Occurs.le_of_lt` says that two occurrences never overlap.
* `Marker.Reported` are the results of a search that goes on behind each occurrence it finds, and
  `Marker.search` is such a search. `HtmlContext.feed_eq_afterReported` says that the context depends on
  these results only: no marker is missed for having started inside another one.
* `Marker.SafeCut` says that a text is cut neither inside a marker nor before the rest of a longer
  name. `HtmlContext.feed_cut` is the main statement: nothing but the context has to be kept over such
  a cut.
-/

namespace Stencil

namespace Marker

variable {m m' : Marker} {s t : List Char} {i j : Nat}

/-- A marker is spelled at a position of a text, in capital or small letters. -/
def Occurs (m : Marker) (s : List Char) (i : Nat) : Prop :=
  ((s.drop i).take m.spelling.length).map Char.toLower = m.spelling

instance (m : Marker) (s : List Char) (i : Nat) : Decidable (m.Occurs s i) :=
  inferInstanceAs (Decidable (_ = _))

/-! ## Where occurrences are -/

theorem occurs_iff_startsWith :
    m.Occurs s i ↔ after?.startsWith m.spelling (s.drop i) = true :=
  startsWith_iff.symm

theorem occurs_drop : m.Occurs (s.drop j) i ↔ m.Occurs s (j + i) := by
  rw [Occurs, Occurs, List.drop_drop]

theorem occurs_cons_succ {a : Char} : m.Occurs (a :: s) (i + 1) ↔ m.Occurs s i := Iff.rfl

theorem length_spelling_pos (m : Marker) : 0 < m.spelling.length := by cases m <;> decide

/-- The spelling of a marker has its end in the text. -/
theorem Occurs.le_length (h : m.Occurs s i) : i + m.spelling.length ≤ s.length := by
  have hlength := congrArg List.length h
  rw [List.length_map, List.length_take, List.length_drop] at hlength
  have hpos := m.length_spelling_pos
  omega

theorem not_occurs_nil (m : Marker) (i : Nat) : ¬ m.Occurs [] i := fun h => by
  have hle := h.le_length
  have hpos := m.length_spelling_pos
  rw [List.length_nil] at hle
  omega

/-- Text behind the end of a spelling does not matter. -/
theorem occurs_append (hle : i + m.spelling.length ≤ s.length) :
    m.Occurs (s ++ t) i ↔ m.Occurs s i := by
  have hdrop : m.spelling.length ≤ (s.drop i).length := by
    rw [List.length_drop]
    omega
  rw [Occurs, Occurs, List.drop_append_of_le_length (Nat.le_of_add_right_le hle),
    List.take_append_of_le_length hdrop]

theorem occurs_append_left (p : List Char) : m.Occurs (p ++ s) (p.length + i) ↔ m.Occurs s i := by
  rw [← occurs_drop, List.drop_left]

/-- Each character of an occurrence is one of the spelling. -/
theorem Occurs.getElem? (h : m.Occurs s i) {k : Nat} (hk : k < m.spelling.length) :
    s[i + k]?.map Char.toLower = m.spelling[k]? := by
  rw [← List.getElem?_drop, ← List.getElem?_take_of_lt hk, ← List.getElem?_map, h]

theorem getElem?_spelling_zero (m : Marker) : m.spelling[0]? = some '<' := by cases m <;> rfl

theorem eq_zero_of_getElem?_spelling {k : Nat} (hk : k < m.spelling.length)
    (h : m.spelling[k]? = some '<') : k = 0 := by
  revert k
  cases m <;> decide

/-- **Occurrences never overlap**: a later one starts behind the end of an earlier one. -/
theorem Occurs.le_of_lt (h : m.Occurs s i) (h' : m'.Occurs s j) (hlt : i < j) :
    i + m.spelling.length ≤ j := by
  refine Nat.le_of_not_lt fun hinside => ?_
  -- the first character of the later one is a `<` inside the earlier one
  have hk : j - i < m.spelling.length := by omega
  have hchar := h'.getElem? m'.length_spelling_pos
  have hsame := h.getElem? hk
  rw [Nat.add_sub_cancel' (Nat.le_of_lt hlt)] at hsame
  rw [Nat.add_zero, hsame, m'.getElem?_spelling_zero] at hchar
  have hzero := eq_zero_of_getElem?_spelling hk hchar
  omega

theorem isAt_iff_occurs :
    m.isAt s = true ↔ m.Occurs s 0 ∧ endsName (s.drop m.spelling.length) = true := by
  rw [isAt_iff, occurs_iff_startsWith, List.drop_zero]

theorem at?_eq_none (h : ∀ m : Marker, ¬ m.Occurs s 0) : at? s = none :=
  Option.eq_none_iff_forall_ne_some.2 fun m hm => h m (isAt_iff_occurs.1 (at?_eq_some.1 hm)).1

/-! ## Searching for markers -/

/-- What a search for the markers reports from left to right, each with the text behind it: the first
occurrence, and then what a search reports behind that. -/
inductive Reported : List Char → List (Marker × List Char) → Prop
  | none {s : List Char} (hnone : ∀ (m : Marker) i, ¬ m.Occurs s i) : Reported s []
  | first {s : List Char} {m : Marker} {i : Nat} {found : List (Marker × List Char)}
      (hoccurs : m.Occurs s i) (hfirst : ∀ (m' : Marker) j, m'.Occurs s j → i ≤ j)
      (hrest : Reported (s.drop (i + m.spelling.length)) found) :
      Reported s ((m, s.drop (i + m.spelling.length)) :: found)

/-- A character at which no marker starts is passed over. -/
theorem Reported.cons {a : Char} {found : List (Marker × List Char)} (h : Reported s found)
    (hstart : ∀ m : Marker, ¬ m.Occurs (a :: s) 0) : Reported (a :: s) found := by
  cases h with
  | none hnone =>
    refine .none fun m i h => ?_
    cases i with
    | zero => exact hstart m h
    | succ i => exact hnone m i (occurs_cons_succ.1 h)
  | @first _ m i found hoccurs hfirst hrest =>
    have hdrop : (a :: s).drop (i + 1 + m.spelling.length) = s.drop (i + m.spelling.length) := by
      rw [Nat.add_right_comm, List.drop_succ_cons]
    rw [← hdrop]
    rw [← hdrop] at hrest
    refine .first (occurs_cons_succ.2 hoccurs) (fun m' j h => ?_) hrest
    cases j with
    | zero => exact absurd h (hstart m')
    | succ j => exact Nat.succ_le_succ (hfirst m' j (occurs_cons_succ.1 h))

/-- All markers there are. -/
def all : List Marker := [scriptOpen, scriptClose, styleOpen, styleClose]

theorem mem_all (m : Marker) : m ∈ all := by cases m <;> decide

/-- The marker that is spelled at the start of a text. -/
def spelled? (s : List Char) : Option Marker := all.find? fun m => m.Occurs s 0

theorem spelled?_eq_none (h : spelled? s = none) (m : Marker) : ¬ m.Occurs s 0 := by
  simpa using List.find?_eq_none.1 h m m.mem_all

theorem occurs_of_spelled? (h : spelled? s = some m) : m.Occurs s 0 := by
  simpa using List.find?_some h

/-- The markers in a text from left to right, each with the text behind it; some characters at the
start are passed over. -/
def search (skipped : Nat) : List Char → List (Marker × List Char)
  | [] => []
  | a :: s =>
    match skipped with
    | skipped + 1 => search skipped s
    | 0 =>
      match spelled? (a :: s) with
      | some m => (m, (a :: s).drop m.spelling.length) :: search (m.spelling.length - 1) s
      | none => search 0 s

theorem reported_search (s : List Char) (skipped : Nat) :
    Reported (s.drop skipped) (search skipped s) := by
  induction s generalizing skipped with
  | nil =>
    rw [List.drop_nil]
    exact .none not_occurs_nil
  | cons a s ih =>
    match skipped with
    | skipped + 1 => exact ih skipped
    | 0 =>
      rw [List.drop_zero, search]
      cases hspelled : spelled? (a :: s) with
      | none => exact (ih 0).cons (spelled?_eq_none hspelled)
      | some m =>
        have hrest := ih (m.spelling.length - 1)
        rw [← List.drop_succ_cons (a := a), Nat.sub_add_cancel m.length_spelling_pos,
          ← Nat.zero_add m.spelling.length] at hrest
        have h := Reported.first (occurs_of_spelled? hspelled) (fun _ _ _ => Nat.zero_le _) hrest
        rwa [Nat.zero_add] at h

end Marker

namespace HtmlContext

variable {s t : List Char}

open Marker (Reported)

/-- The context after what a search reports: a marker counts unless its name is longer. -/
def afterReported (c : HtmlContext) (found : List (Marker × List Char)) : HtmlContext :=
  found.foldl (fun c (m, rest) => if Marker.endsName rest then c.afterMarker m else c) c

/-- Characters at which no marker starts leave the context alone. -/
theorem feed_drop {n : Nat} (h : ∀ i < n, ∀ m : Marker, ¬ m.Occurs s i) (c : HtmlContext) :
    c.feed (s.drop n) = c.feed s := by
  induction n generalizing s with
  | zero => rfl
  | succ n ih =>
    cases s with
    | nil => rfl
    | cons a s =>
      have hstep : c.step (a :: s) = c := by
        rw [step, Marker.at?_eq_none (h 0 n.succ_pos)]
      rw [List.drop_succ_cons, feed, hstep]
      exact ih fun i hi m hm => h (i + 1) (Nat.succ_lt_succ hi) m (Marker.occurs_cons_succ.2 hm)

theorem step_of_occurs {m : Marker} (h : m.Occurs s 0) (c : HtmlContext) :
    c.step s = if Marker.endsName (s.drop m.spelling.length) then c.afterMarker m else c := by
  unfold step
  split
  · next m' hm' =>
    obtain ⟨hoccurs, hends⟩ := Marker.isAt_iff_occurs.1 (Marker.at?_eq_some.1 hm')
    obtain rfl : m' = m :=
      Marker.startsWith_unique (Marker.startsWith_iff.2 hoccurs) (Marker.startsWith_iff.2 h)
    rw [if_pos hends]
  · next hnone =>
    have hlonger : ¬ Marker.endsName (s.drop m.spelling.length) = true := fun hends => by
      rw [Marker.at?_eq_some.2 (Marker.isAt_iff_occurs.2 ⟨h, hends⟩)] at hnone
      cases hnone
    rw [if_neg hlonger]

/-- The context over a text that starts with a marker. -/
theorem feed_of_occurs {m : Marker} (h : m.Occurs s 0) (c : HtmlContext) :
    c.feed s = (c.step s).feed (s.drop m.spelling.length) := by
  cases s with
  | nil => exact absurd h (m.not_occurs_nil 0)
  | cons a s =>
    -- nothing starts at the other characters of the marker
    have hinside : ∀ i < m.spelling.length - 1, ∀ m' : Marker, ¬ m'.Occurs s i := by
      intro i hi m' hm'
      have hle := h.le_of_lt (Marker.occurs_cons_succ.2 hm') i.succ_pos
      omega
    obtain ⟨n, hn⟩ := Nat.exists_eq_add_one.2 m.length_spelling_pos
    rw [hn, Nat.add_sub_cancel] at hinside
    rw [feed, hn, List.drop_succ_cons, feed_drop hinside]

/-- **The context depends on what a search reports only.** -/
theorem feed_eq_afterReported {found : List (Marker × List Char)} (h : Reported s found)
    (c : HtmlContext) : c.feed s = c.afterReported found := by
  induction h generalizing c with
  | @none s hnone =>
    rw [← feed_drop (fun i (_ : i < s.length) m => hnone m i) c, List.drop_length]
    rfl
  | @first s m i found hoccurs hfirst hrest ih =>
    have hbefore : ∀ j < i, ∀ m' : Marker, ¬ m'.Occurs s j := fun j hj m' hm' =>
      Nat.not_lt.2 (hfirst m' j hm') hj
    have hstart : m.Occurs (s.drop i) 0 := Marker.occurs_drop.2 hoccurs
    rw [← feed_drop hbefore, feed_of_occurs hstart, step_of_occurs hstart, List.drop_drop, ih]
    rfl

end HtmlContext

/-! ## Cutting a text -/

namespace Marker

/-- A text can be cut between two pieces: no marker stands across the cut, and none that ends there
has a name that goes on behind it. -/
structure SafeCut (s t : List Char) : Prop where
  apart : ∀ (m : Marker) i, m.Occurs (s ++ t) i →
    ¬ (i < s.length ∧ s.length < i + m.spelling.length)
  ends : ∀ (m : Marker) i, m.Occurs (s ++ t) i →
    i + m.spelling.length = s.length → endsName t = true

/-- Only markers that start in the first piece matter. -/
theorem safeCut_iff : SafeCut s t ↔ ∀ m ∈ all, ∀ i < s.length, m.Occurs (s ++ t) i →
    i + m.spelling.length ≤ s.length ∧ (i + m.spelling.length = s.length → endsName t = true) := by
  constructor
  · intro h m _ i hi hoccurs
    exact ⟨Nat.le_of_not_lt fun hlt => h.apart m i hoccurs ⟨hi, hlt⟩, h.ends m i hoccurs⟩
  · intro h
    constructor
    · rintro m i hoccurs ⟨hi, hlt⟩
      exact Nat.not_lt.2 (h m m.mem_all i hi hoccurs).1 hlt
    · intro m i hoccurs hend
      have hpos := m.length_spelling_pos
      exact (h m m.mem_all i (by omega) hoccurs).2 hend

instance (s t : List Char) : Decidable (SafeCut s t) := decidable_of_iff _ safeCut_iff.symm

theorem endsName_append {r : List Char} (hr : r ≠ []) : endsName (r ++ t) = endsName r := by
  cases r with
  | nil => exact absurd rfl hr
  | cons c r => rfl

/-- No tag is torn where a text is cut safely. -/
theorem SafeCut.not_torn (h : SafeCut s t) : ¬ Torn s t := by
  rintro ⟨m, u, hu, ⟨p, rfl⟩, hm⟩
  refine hm (Bool.eq_iff_iff.2 ?_)
  have hshift : m.Occurs (u ++ t) 0 → m.Occurs (p ++ u ++ t) p.length := fun hoccurs => by
    have hmoved := (occurs_append_left p).2 hoccurs
    rwa [Nat.add_zero, ← List.append_assoc] at hmoved
  have hupos := List.length_pos_iff.2 hu
  rw [isAt_iff_occurs, isAt_iff_occurs]
  by_cases hle : m.spelling.length ≤ u.length
  · rw [occurs_append (by rwa [Nat.zero_add]), List.drop_append_of_le_length hle]
    refine and_congr_right fun hoccurs => ?_
    by_cases hrest : u.drop m.spelling.length = []
    · -- the marker ends at the cut
      have hlength : m.spelling.length = u.length := Nat.le_antisymm hle (List.drop_eq_nil_iff.1 hrest)
      have hends := h.ends m p.length
        (hshift ((occurs_append (by rwa [Nat.zero_add])).2 hoccurs)) (by simp [hlength])
      rw [hrest, List.nil_append]
      exact iff_of_true hends rfl
    · rw [endsName_append hrest]
  · -- the marker would stand across the cut
    have hcross : ¬ m.Occurs (u ++ t) 0 := fun hoccurs =>
      h.apart m p.length (hshift hoccurs) (by rw [List.length_append]; omega)
    have hshort : ¬ m.Occurs u 0 := fun hoccurs =>
      hle (by simpa using hoccurs.le_length)
    exact iff_of_false (fun h => hcross h.1) (fun h => hshort h.1)

end Marker

namespace HtmlContext

open Marker (Reported SafeCut)

/-- **A text can be followed in two pieces where it is cut safely.** From whatever context, the first
piece and then the second one lead where the whole text does; so do the occurrences that a search
reports in the pieces and in the whole text. -/
theorem feed_cut {s t : List Char} (hcut : SafeCut s t) (c : HtmlContext) :
    c.feed (s ++ t) = (c.feed s).feed t ∧
      ∀ {whole first second : List (Marker × List Char)}, Reported (s ++ t) whole →
        Reported s first → Reported t second →
          c.afterReported whole = (c.afterReported first).afterReported second := by
  have hfeed := feed_append hcut.not_torn c
  refine ⟨hfeed, fun hwhole hfirst hsecond => ?_⟩
  rw [← feed_eq_afterReported hwhole, ← feed_eq_afterReported hfirst,
    ← feed_eq_afterReported hsecond, hfeed]

/-- A cut right behind the name of a tag, with the end of the tag behind it. -/
theorem feed_cut_endOfName :
    SafeCut "</Script".toList "/><STYLE>".toList ∧
      (HtmlContext.script.feed "</Script".toList).feed "/><STYLE>".toList = .style ∧
      HtmlContext.script.feed ("</Script".toList ++ "/><STYLE>".toList) = .style ∧
      HtmlContext.script.afterReported (Marker.search 0 ("</Script".toList ++ "/><STYLE>".toList)) =
        (HtmlContext.script.afterReported [(.scriptClose, [])]).afterReported [(.styleOpen, ['>'])] := by
  have hcut : SafeCut "</Script".toList "/><STYLE>".toList := by decide
  refine ⟨hcut, rfl, ?_, ?_⟩
  · rw [(feed_cut hcut .script).1]
    rfl
  · exact (feed_cut hcut .script).2 (Marker.reported_search _ 0) (Marker.reported_search _ 0)
      (Marker.reported_search _ 0)

end HtmlContext

end Stencil
