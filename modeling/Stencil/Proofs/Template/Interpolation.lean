import Stencil.Proofs.Text.Search
import Stencil.Template.Builder

/-!
# Splitting a text at its statements

A text is split from the left: a statement starts at the first left delimiter and ends at the first
right one behind that, and so on behind it, as long as there are both.

* `Interpolated.Splits d s i` says that `i` is the text `s` split in this way, and `splits_iff` that this
  is what `scan` gives.
* `Splits.source_eq` says that nothing is lost, `Splits.holds_iff` that a statement is found in every
  text that holds one.
* `scan_source_iff` says which texts with statements in them are found again.
-/

namespace Stencil.Interpolated

open Text (Leftmost cut?_eq_some_iff cut?_eq_none_iff leftmost_append_iff)

variable {d : Delimiters} {s before statement : List Char} {i j : Interpolated}

/-! ## Texts with statements in them -/

/-- A statement between its delimiters. -/
def span (d : Delimiters) (statement : List Char) : List Char :=
  d.opening ++ (statement ++ d.closing)

/-- A text holds a statement between delimiters. -/
def Holds (d : Delimiters) (s : List Char) : Prop := ∃ statement, span d statement <:+: s

/-- A text without statements. -/
def literal (s : List Char) : Interpolated := ⟨[], s⟩

/-- A text with one more statement in front. -/
def lead (before statement : List Char) (i : Interpolated) : Interpolated :=
  ⟨(before, statement) :: i.parts, i.rest⟩

/-- The text with its statements between delimiters. -/
def source (d : Delimiters) (i : Interpolated) : List Char :=
  i.parts.flatMap (fun p => p.1 ++ span d p.2) ++ i.rest

@[simp] theorem source_literal (s : List Char) : (literal s).source d = s := rfl

@[simp] theorem source_lead (before statement : List Char) (i : Interpolated) :
    (lead before statement i).source d = before ++ (span d statement ++ i.source d) := by
  simp [source, lead]

/-- A text without statements is its own source. -/
theorem eq_literal (h : i.parts = []) : i = literal (i.source d) := by
  obtain ⟨parts, rest⟩ := i
  obtain rfl := h
  rfl

theorem span_append (statement s : List Char) :
    span d statement ++ s = d.opening ++ (statement ++ (d.closing ++ s)) := by
  simp [span]

/-- The text is split from the left: no delimiter of a statement occurs earlier than where it is found,
and no statement is left in the rest. -/
inductive Splits (d : Delimiters) : List Char → Interpolated → Prop
  | literal {s : List Char} (h : ¬ Holds d s) : Splits d s (literal s)
  | lead {before statement s : List Char} {i : Interpolated}
    (hopening : Leftmost d.opening before (before ++ (span d statement ++ s)))
    (hclosing : Leftmost d.closing statement (statement ++ (d.closing ++ s))) (h : Splits d s i) :
    Splits d (before ++ (span d statement ++ s)) (lead before statement i)

/-- Nothing is lost. -/
theorem Splits.source_eq (h : Splits d s i) : i.source d = s := by
  induction h with
  | literal _ => rfl
  | lead _ _ _ ih => rw [source_lead, ih]

/-! ## Scanning -/

theorem cut?_opening (h : Leftmost d.opening before (before ++ (span d statement ++ s))) :
    Text.cut? d.opening (before ++ (span d statement ++ s)) =
      some (before, statement ++ (d.closing ++ s)) :=
  cut?_eq_some_iff.2 ⟨by rw [span_append], h⟩

theorem cut?_closing (h : Leftmost d.closing statement (statement ++ (d.closing ++ s))) :
    Text.cut? d.closing (statement ++ (d.closing ++ s)) = some (statement, s) :=
  cut?_eq_some_iff.2 ⟨rfl, h⟩

/-- A text that holds a statement has a right delimiter behind the first left one. -/
theorem Holds.cut?_closing_ne_none (h : Holds d s) {before t : List Char}
    (hopening : Text.cut? d.opening s = some (before, t)) : Text.cut? d.closing t ≠ none := by
  obtain ⟨statement, u, v, hs⟩ := h
  have hbehind : statement ++ (d.closing ++ v) <:+ t := by
    apply Text.suffix_of_cut? hopening (u := u)
    rw [← span_append, ← List.append_assoc, hs]
  intro hnone
  refine cut?_eq_none_iff.1 hnone (List.IsInfix.trans ?_ hbehind.isInfix)
  exact ⟨statement, v, by rw [List.append_assoc]⟩

theorem Holds.cut?_opening_ne_none (h : Holds d s) : Text.cut? d.opening s ≠ none := by
  obtain ⟨statement, hspan⟩ := h
  intro hnone
  refine cut?_eq_none_iff.1 hnone (List.IsInfix.trans ?_ hspan)
  exact (List.prefix_append d.opening (statement ++ d.closing)).isInfix

theorem splits_scan (d : Delimiters) (s : List Char) : Splits d s (scan d s) := by
  rw [scan]
  split
  · next hopening => exact .literal fun h => h.cut?_opening_ne_none hopening
  · next before t hopening =>
    split
    · next hclosing => exact .literal fun h => h.cut?_closing_ne_none hopening hclosing
    · next statement rest hclosing =>
      have hlt : rest.length < s.length :=
        Nat.lt_trans (Text.cut?_length_lt d.closing_ne_nil hclosing)
          (Text.cut?_length_lt d.opening_ne_nil hopening)
      obtain ⟨rfl, hfirst⟩ := cut?_eq_some_iff.1 hopening
      obtain ⟨rfl, hfirst'⟩ := cut?_eq_some_iff.1 hclosing
      rw [← span_append] at hfirst
      have h := Splits.lead hfirst hfirst' (splits_scan d rest)
      rwa [span_append] at h
  termination_by s.length

theorem Splits.scan_eq (h : Splits d s i) : scan d s = i := by
  induction h with
  | @literal s h =>
    rw [scan]
    split
    · rfl
    · next before t hopening =>
      split
      · rfl
      · next statement rest hclosing =>
        obtain ⟨rfl, -⟩ := cut?_eq_some_iff.1 hopening
        obtain ⟨rfl, -⟩ := cut?_eq_some_iff.1 hclosing
        exact absurd ⟨statement, before, rest, by simp [span]⟩ h
  | @lead before statement s i hopening hclosing _ ih =>
    rw [scan]
    split
    · next hnone => simp [cut?_opening hopening] at hnone
    · next before' t hsome =>
      obtain ⟨rfl, rfl⟩ : before = before' ∧ statement ++ (d.closing ++ s) = t := by
        simpa [cut?_opening hopening] using hsome
      split
      · next hnone => simp [cut?_closing hclosing] at hnone
      · next statement' rest hsome =>
        obtain ⟨rfl, rfl⟩ : statement = statement' ∧ s = rest := by
          simpa [cut?_closing hclosing] using hsome
        rw [ih]
        rfl

/-- **Scanning splits a text from the left**, and there is one way to do so. -/
theorem splits_iff : Splits d s i ↔ scan d s = i :=
  ⟨Splits.scan_eq, fun h => h ▸ splits_scan d s⟩

/-- Statements are found in the texts that hold one. -/
theorem Splits.holds_iff (h : Splits d s i) : Holds d s ↔ i.parts ≠ [] := by
  cases h with
  | literal h => exact iff_of_false h fun hne => hne rfl
  | @lead before statement s i _ _ _ =>
    exact iff_of_true ⟨statement, before, s, by simp⟩ (List.cons_ne_nil _ _)

instance (d : Delimiters) (s : List Char) : Decidable (Holds d s) :=
  decidable_of_iff _ (splits_scan d s).holds_iff.symm

theorem not_holds_nil (d : Delimiters) : ¬ Holds d [] := by
  rintro ⟨statement, hspan⟩
  have hnil := List.infix_nil.1 hspan
  exact d.opening_ne_nil (List.append_eq_nil_iff.1 hnil).1

/-- A text without a left delimiter holds no statement. -/
theorem not_holds_of_not_infix (h : ¬ d.opening <:+: s) : ¬ Holds d s := fun hholds =>
  hholds.cut?_opening_ne_none (cut?_eq_none_iff.2 h)

/-- The delimiters of all statements are found where they are written. -/
structure IsFound (d : Delimiters) (i : Interpolated) : Prop where
  opening : ∀ p ∈ i.parts, Leftmost d.opening p.1 (p.1 ++ d.opening)
  closing : ∀ p ∈ i.parts, Leftmost d.closing p.2 (p.2 ++ d.closing)
  rest : ¬ Holds d i.rest

theorem Splits.isFound (h : Splits d s i) : i.IsFound d := by
  induction h with
  | literal h => exact ⟨List.forall_mem_nil _, List.forall_mem_nil _, h⟩
  | lead hopening hclosing _ ih =>
    rw [span_append, leftmost_append_iff] at hopening
    rw [leftmost_append_iff] at hclosing
    exact ⟨List.forall_mem_cons.2 ⟨hopening, ih.opening⟩,
      List.forall_mem_cons.2 ⟨hclosing, ih.closing⟩, ih.rest⟩

theorem IsFound.splits : ∀ {i : Interpolated}, i.IsFound d → Splits d (i.source d) i
  | ⟨[], _⟩, h => .literal h.rest
  | ⟨(before, statement) :: parts, rest⟩, ⟨hopening, hclosing, hrest⟩ => by
    rw [List.forall_mem_cons] at hopening hclosing
    have hbehind : Splits d _ ⟨parts, rest⟩ := IsFound.splits ⟨hopening.2, hclosing.2, hrest⟩
    have h := source_lead (d := d) before statement ⟨parts, rest⟩
    rw [lead] at h
    rw [h]
    refine .lead ?_ (leftmost_append_iff.2 hclosing.1) hbehind
    rw [span_append, leftmost_append_iff]
    exact hopening.1

/-- **A text with statements in it is found again** exactly if its delimiters are found where they are
written. -/
theorem scan_source_iff : scan d (i.source d) = i ↔ i.IsFound d :=
  ⟨fun h => (splits_iff.2 h).isFound, fun h => h.splits.scan_eq⟩

/-! ## Texts behind one another -/

/-- A text with statements behind another one. -/
def append (i j : Interpolated) : Interpolated :=
  match j.parts with
  | [] => ⟨i.parts, i.rest ++ j.rest⟩
  | (before, statement) :: parts => ⟨i.parts ++ (i.rest ++ before, statement) :: parts, j.rest⟩

instance : Append Interpolated := ⟨append⟩

theorem append_literal (i : Interpolated) (s : List Char) : i ++ literal s = ⟨i.parts, i.rest ++ s⟩ := rfl

theorem append_lead (i : Interpolated) (before statement : List Char) (j : Interpolated) :
    i ++ lead before statement j =
      ⟨i.parts ++ (i.rest ++ before, statement) :: j.parts, j.rest⟩ := rfl

theorem eq_literal_or_lead (i : Interpolated) :
    (∃ s, i = literal s) ∨ ∃ before statement j, i = lead before statement j := by
  obtain ⟨parts, rest⟩ := i
  cases parts with
  | nil => exact .inl ⟨rest, rfl⟩
  | cons p parts => exact .inr ⟨p.1, p.2, ⟨parts, rest⟩, rfl⟩

@[simp] theorem source_append (i j : Interpolated) :
    (i ++ j).source d = i.source d ++ j.source d := by
  rcases eq_literal_or_lead j with ⟨s, rfl⟩ | ⟨before, statement, j, rfl⟩
  · rw [append_literal]
    simp [source, literal]
  · rw [append_lead]
    simp [source, lead]

/-- The statements are those of both texts. -/
@[simp] theorem statements_append (i j : Interpolated) :
    (i ++ j).parts.map Prod.snd = i.parts.map Prod.snd ++ j.parts.map Prod.snd := by
  rcases eq_literal_or_lead j with ⟨s, rfl⟩ | ⟨before, statement, j, rfl⟩
  · rw [append_literal]
    simp [literal]
  · rw [append_lead]
    simp [lead]

end Stencil.Interpolated
