import Stencil.Html.Context

/-!
# Markers in a text

The context of a text depends on the markers in it only: on which characters one starts, with what is
behind them.

* `Marker.isAt_iff` says when a marker starts a text, and `Marker.at?_eq_some` that no two markers start
  at one character.
* `Marker.found` lists what starts at each character of a text with another text behind it, and
  `HtmlContext.feed_eq_after` reads the context off that list.
* `Marker.Torn` is the only way in which the text behind matters: `Marker.found_eq_iff`. A space tears
  no tag, and `HtmlContext.feed_append` reads a text in two pieces that tear none.
* `HtmlContext.feed_of_not_mem` says that every context lasts over a text without a `<`.
-/

namespace Stencil

namespace Marker

/-! ## At most one marker -/

theorem startsWith_iff {needle s : List Char} : after?.startsWith needle s = true ↔
    (s.take needle.length).map Char.toLower = needle := by
  induction needle generalizing s with
  | nil => simp [after?.startsWith]
  | cons n ns ih =>
    cases s with
    | nil => simp [after?.startsWith]
    | cons c cs =>
      simp only [after?.startsWith, Bool.and_eq_true, decide_eq_true_eq, List.length_cons,
        List.take_succ_cons, List.map_cons, List.cons.injEq, ih]
      exact and_congr_left' eq_comm

/-- A text that starts with the spelling of a marker tells which one by four characters. -/
theorem take_of_startsWith {m : Marker} {s : List Char}
    (h : after?.startsWith m.spelling s = true) :
    (s.take 4).map Char.toLower = m.spelling.take 4 := by
  have hspelling := startsWith_iff.1 h
  have hlength : 4 ≤ m.spelling.length := by cases m <;> decide
  rw [← hspelling, ← List.map_take, List.take_take, Nat.min_eq_left hlength]

theorem startsWith_unique {m m' : Marker} {s : List Char}
    (h : after?.startsWith m.spelling s = true) (h' : after?.startsWith m'.spelling s = true) :
    m = m' := by
  have htake : m.spelling.take 4 = m'.spelling.take 4 :=
    (take_of_startsWith h).symm.trans (take_of_startsWith h')
  revert htake
  cases m <;> cases m' <;> decide

theorem isAt_iff {m : Marker} {s : List Char} : m.isAt s = true ↔
    after?.startsWith m.spelling s = true ∧ endsName (s.drop m.spelling.length) = true := by
  unfold isAt after?
  cases after?.startsWith m.spelling s <;> simp

theorem isAt_unique {m m' : Marker} {s : List Char} (h : m.isAt s = true) (h' : m'.isAt s = true) :
    m = m' :=
  startsWith_unique (isAt_iff.1 h).1 (isAt_iff.1 h').1

theorem at?_eq_some {m : Marker} {s : List Char} : at? s = some m ↔ m.isAt s = true := by
  constructor
  · intro h
    have hm := List.find?_some h
    exact hm
  · intro h
    have hsome : (at? s).isSome := by
      unfold at?
      rw [List.find?_isSome]
      exact ⟨m, by cases m <;> decide, h⟩
    obtain ⟨m', hm'⟩ := Option.isSome_iff_exists.1 hsome
    have hm := List.find?_some hm'
    rw [hm', isAt_unique hm h]

theorem at?_congr {s s' : List Char} : at? s = at? s' ↔ ∀ m : Marker, m.isAt s = m.isAt s' := by
  constructor
  · intro h m
    rw [Bool.eq_iff_iff, ← at?_eq_some, ← at?_eq_some, h]
  · intro h
    refine Option.ext fun m => ?_
    rw [at?_eq_some, at?_eq_some, h m]

/-! ## All markers -/

/-- What starts at each character of a text that has another text behind it. -/
def found : List Char → List Char → List (Option Marker)
  | [], _ => []
  | a :: s, rest => at? (a :: s ++ rest) :: found s rest

theorem found_append (s t rest : List Char) :
    found (s ++ t) rest = found s (t ++ rest) ++ found t rest := by
  induction s with
  | nil => rfl
  | cons a s ih => simp [found, ih]

theorem length_found (s rest : List Char) : (found s rest).length = s.length := by
  induction s with
  | nil => rfl
  | cons a s ih => simp [found, ih]

/-- A tag is torn between two texts: a marker that starts in the first one is complete only with the
second one behind it, or only without. -/
def Torn (s t : List Char) : Prop :=
  ∃ (m : Marker) (u : List Char), u ≠ [] ∧ u <:+ s ∧ m.isAt (u ++ t) ≠ m.isAt u

theorem torn_cons {a : Char} {s t : List Char} :
    Torn (a :: s) t ↔ at? (a :: s ++ t) ≠ at? (a :: s) ∨ Torn s t := by
  rw [ne_eq, at?_congr, Classical.not_forall]
  constructor
  · rintro ⟨m, u, hu, hsuffix, hm⟩
    rcases List.suffix_cons_iff.1 hsuffix with rfl | hsuffix
    · exact .inl ⟨m, hm⟩
    · exact .inr ⟨m, u, hu, hsuffix, hm⟩
  · rintro (⟨m, hm⟩ | ⟨m, u, hu, hsuffix, hm⟩)
    · exact ⟨m, a :: s, by simp, List.suffix_refl _, hm⟩
    · exact ⟨m, u, hu, hsuffix.trans (List.suffix_cons a s), hm⟩

/-- **The text behind matters exactly where it tears a tag.** -/
theorem found_eq_iff {s t : List Char} : found s t = found s [] ↔ ¬ Torn s t := by
  induction s with
  | nil =>
    refine iff_of_true rfl ?_
    rintro ⟨m, u, hu, hsuffix, -⟩
    exact hu (List.suffix_nil.1 hsuffix)
  | cons a s ih =>
    rw [found, found, List.cons.injEq, ih, torn_cons, List.append_nil, not_or, ne_eq,
      Classical.not_not]

/-! ## Markers and white space -/

theorem startsWith_append_space {needle : List Char} (hneedle : ' ' ∉ needle) (s t : List Char) :
    after?.startsWith needle (s ++ ' ' :: t) = after?.startsWith needle s := by
  induction needle generalizing s with
  | nil => simp [after?.startsWith]
  | cons n ns ih =>
    rw [List.mem_cons, not_or] at hneedle
    cases s with
    | nil =>
      have hne : n ≠ ' ' := Ne.symm hneedle.1
      simp [after?.startsWith, hne]
    | cons c s => simp [after?.startsWith, ih hneedle.2]

theorem endsName_append_space (s t : List Char) : endsName (s ++ ' ' :: t) = endsName s := by
  cases s <;> rfl

/-- A marker is complete before white space if it is at all. -/
theorem isAt_append_space (m : Marker) (s t : List Char) : m.isAt (s ++ ' ' :: t) = m.isAt s := by
  have hspelling : ' ' ∉ m.spelling := by cases m <;> decide
  rw [Bool.eq_iff_iff, isAt_iff, isAt_iff, startsWith_append_space hspelling]
  refine and_congr_right fun hstart => ?_
  have hlength : m.spelling.length ≤ s.length := by
    rw [← startsWith_iff.1 hstart, List.length_map, List.length_take]
    exact Nat.min_le_right _ _
  rw [List.drop_append_of_le_length hlength, endsName_append_space]

theorem not_torn_nil (t : List Char) : ¬ Torn [] t := fun ⟨_, _, hu, hsuffix, _⟩ =>
  hu (List.suffix_nil.1 hsuffix)

/-- No tag is torn in front of a space. -/
theorem not_torn_space (s t : List Char) : ¬ Torn s (' ' :: t) := fun ⟨m, u, _, _, hm⟩ =>
  hm (isAt_append_space m u t)

/-- No tag is torn behind a space. -/
theorem not_torn_behind_space (s t : List Char) : ¬ Torn (s ++ [' ']) t := by
  rintro ⟨m, u, hu, hsuffix, hm⟩
  obtain ⟨v, rfl⟩ : ∃ v, u = v ++ [' '] := by
    rcases List.suffix_concat_iff.1 hsuffix with h | ⟨v, rfl, -⟩
    · exact absurd h hu
    · exact ⟨v, by simp⟩
  rw [List.append_assoc, List.singleton_append, isAt_append_space, isAt_append_space] at hm
  exact hm rfl

end Marker

namespace HtmlContext

/-- The context after some markers. -/
def after (c : HtmlContext) (ms : List (Option Marker)) : HtmlContext :=
  ms.foldl (fun c m => (m.map c.afterMarker).getD c) c

theorem after_append (c : HtmlContext) (ms ns : List (Option Marker)) :
    c.after (ms ++ ns) = (c.after ms).after ns :=
  List.foldl_append

theorem feed_eq_after (c : HtmlContext) (s : List Char) : c.feed s = c.after (Marker.found s []) := by
  induction s generalizing c with
  | nil => rfl
  | cons a s ih =>
    have hstep : c.step (a :: s) = ((Marker.at? (a :: s)).map c.afterMarker).getD c := by
      unfold step
      cases Marker.at? (a :: s) <;> rfl
    rw [feed, ih, hstep, Marker.found, List.append_nil]
    rfl

/-- Text that tears no tag can be read in two pieces. -/
theorem feed_append {s t : List Char} (h : ¬ Marker.Torn s t) (c : HtmlContext) :
    c.feed (s ++ t) = (c.feed s).feed t := by
  rw [feed_eq_after, feed_eq_after, feed_eq_after, Marker.found_append, List.append_nil,
    Marker.found_eq_iff.2 h, after_append]

/-! ## Texts without markers -/

/-- No letter is a capital of `<`. -/
theorem toLower_eq_less {c : Char} (h : c.toLower = '<') : c = '<' := by
  unfold Char.toLower at h
  split at h
  · next hcapital =>
    have hbounds : 65 ≤ c.val.toNat ∧ c.val.toNat ≤ 90 :=
      ⟨UInt32.le_iff_toNat_le.1 hcapital.1, UInt32.le_iff_toNat_le.1 hcapital.2⟩
    have hvalue : (c.val + ('a'.val - 'A'.val)).toNat = 60 := congrArg Char.toNat h
    have hdistance : ('a'.val - 'A'.val).toNat = 32 := rfl
    rw [UInt32.toNat_add, hdistance] at hvalue
    omega
  · exact h

/-- **Every context lasts over a text without a `<`.** -/
theorem feed_of_not_mem {s : List Char} (h : '<' ∉ s) (c : HtmlContext) : c.feed s = c := by
  induction s generalizing c with
  | nil => rfl
  | cons a s ih =>
    rw [List.mem_cons, not_or] at h
    have hnone : Marker.at? (a :: s) = none := by
      refine Option.eq_none_iff_forall_ne_some.2 fun m hm => h.1 ?_
      have hstart := Marker.take_of_startsWith (Marker.isAt_iff.1 (Marker.at?_eq_some.1 hm)).1
      have hless : m.spelling.take 4 = '<' :: (m.spelling.take 4).tail := by cases m <;> rfl
      rw [hless] at hstart
      exact (toLower_eq_less (List.cons.inj hstart).1).symm
    rw [feed, step, hnone]
    exact ih h.2 c

end HtmlContext

end Stencil
