import Stencil.Outline.Nesting
import Stencil.Outline.Printer

/-!
# Reading the lines of an outline

The lines of an outline are found again in its source, with their levels, and so is what is below
each.

* `Fit content` says that a text can be a line: it is no continuation and starts none.
* `Line.classify_written` finds the lines with their levels, whatever the indentation is made of.
* `Nested level plans nests` says that nested lines are those of a plan; `Nest.ofLines_rows` finds them.
-/

namespace Stencil.Outline

open Text (isSpace)

/-- The text can be a line of its own. -/
structure Fit (content : List Char) : Prop where
  start : ∃ c s, content = c :: s ∧ isSpace c = false
  feed : '\n' ∉ content
  finish : content.getLast? ≠ some '\r'
  closed : ∀ indent number, (Line.mk indent content number).isOpen = false

/-! ## Physical lines -/

theorem Margin.feed_notMem {strict : Bool} {n : Nat} {margin : List Char} (h : Margin strict n margin) :
    '\n' ∉ margin := by
  induction h with
  | none => simp
  | tab _ ih => simpa using ih
  | spaces _ _ ih => simpa using ih

theorem linesFrom_feed {s : List Char} (hs : '\n' ∉ s) : ∀ done rest : List Char,
    Text.linesFrom done (s ++ '\n' :: rest) =
      Text.dropReturn (done.reverse ++ s) :: Text.linesFrom [] rest := by
  induction s with
  | nil => simp [Text.linesFrom]
  | cons c s ih =>
    intro done rest
    rw [List.mem_cons, not_or] at hs
    rw [List.cons_append, Text.linesFrom, if_neg (Ne.symm hs.1), ih hs.2]
    simp

theorem linesFrom_last {s : List Char} (hs : '\n' ∉ s) : ∀ done : List Char, done.reverse ++ s ≠ [] →
    Text.linesFrom done s = [done.reverse ++ s] := by
  induction s with
  | nil =>
    intro done hne
    have hdone : done ≠ [] := by simpa using hne
    simp [Text.linesFrom, hdone]
  | cons c s ih =>
    intro done _
    rw [List.mem_cons, not_or] at hs
    rw [Text.linesFrom, if_neg (Ne.symm hs.1), ih hs.2 _ (by simp)]
    simp

theorem dropReturn_of_ne {s : List Char} (h : s.getLast? ≠ some '\r') : Text.dropReturn s = s := by
  unfold Text.dropReturn
  split
  · next r heq =>
    refine absurd ?_ h
    rw [← List.reverse_reverse s, heq]
    simp
  · rfl

variable {strict : Bool} {level n : Nat} {margin content : List Char}

/-- The physical line of a row is not cut short. -/
theorem physical_written (hmargin : Margin strict n margin) (hcontent : Fit content) :
    '\n' ∉ margin ++ content ∧ (margin ++ content).getLast? ≠ some '\r' ∧ margin ++ content ≠ [] := by
  obtain ⟨c, t, heq, -⟩ := hcontent.start
  refine ⟨by simp [hmargin.feed_notMem, hcontent.feed], ?_, by simp [heq]⟩
  have hlast : (margin ++ content).getLast? = content.getLast? := by
    rw [List.getLast?_append, heq, List.getLast?_cons]
    rfl
  rw [hlast]
  exact hcontent.finish

theorem lines_last (hmargin : Margin strict n margin) (hcontent : Fit content) :
    Text.lines (margin ++ content) = [margin ++ content] := by
  obtain ⟨hfeed, -, hne⟩ := physical_written hmargin hcontent
  exact linesFrom_last hfeed [] hne

theorem lines_line (hmargin : Margin strict n margin) (hcontent : Fit content) (s : List Char) :
    Text.lines (margin ++ (content ++ '\n' :: s)) = (margin ++ content) :: Text.lines s := by
  obtain ⟨hfeed, hlast, -⟩ := physical_written hmargin hcontent
  rw [Text.lines, ← List.append_assoc, linesFrom_feed hfeed, List.reverse_nil, List.nil_append,
    dropReturn_of_ne hlast, Text.lines]

/-! ## Levels -/

namespace Line

/-- What a line is apart from its number. -/
def row (l : Line) : Nat × List Char := (l.indent, l.content)

theorem indentation_margin (h : Margin strict n margin) (hcontent : Fit content) :
    indentation strict (margin ++ content) = (n, content) := by
  obtain ⟨c, s, rfl, hc⟩ := hcontent.start
  induction h with
  | none =>
    have htab : c ≠ '\t' := by rintro rfl; cases hc
    have hspace : c ≠ ' ' := by rintro rfl; cases hc
    rw [List.nil_append, indentation]
    · exact fun _ heq => htab (List.cons.inj heq).1
    · exact fun _ heq => hspace (List.cons.inj heq).1
  | tab _ ih => rw [List.cons_append, indentation, ih]
  | spaces hstrict _ ih =>
    rw [List.cons_append, List.cons_append, indentation, if_neg (by simp [hstrict]), ih]

end Line

/-- Every line is at most one level deeper than the one before it. -/
def Steps (level : Nat) : List (Nat × List Char) → Prop
  | [] => True
  | (n, _) :: rows => n ≤ level + 1 ∧ Steps n rows

mutual

theorem steps_rows {n : Nat} : ∀ {p : Plan} {level : Nat} {rest : List (Nat × List Char)},
    n ≤ level + 1 → (∀ level, n ≤ level + 1 → Steps level rest) → Steps level (p.rows n ++ rest)
  | .mk _ _, _, _, hlevel, hrest =>
    ⟨hlevel, steps_rowsOf (Nat.le_refl _) fun _ h => hrest _ (Nat.le_of_succ_le h)⟩

/-- **The lines of a plan go down one level at a time.** -/
theorem steps_rowsOf {n : Nat} : ∀ {ps : List Plan} {level : Nat} {rest : List (Nat × List Char)},
    n ≤ level + 1 → (∀ level, n ≤ level + 1 → Steps level rest) →
      Steps level (Plan.rowsOf n ps ++ rest)
  | [], _, _, hlevel, hrest => hrest _ hlevel
  | p :: ps, level, rest, hlevel, hrest => by
    rw [Plan.rowsOf, List.append_assoc]
    exact steps_rows hlevel fun _ h => steps_rowsOf h hrest

end

namespace Line

/-- The physical line of a row is a line by itself. -/
theorem next?_written (hmargin : Margin strict n margin) (hcontent : Fit content)
    (hlevel : n ≤ level + 1) (number : Nat) :
    next? strict level none (margin ++ content) number = .ok (some ⟨n, content, number⟩) := by
  have hblank : Text.isBlank (margin ++ content) = false := by
    obtain ⟨c, s, heq, hc⟩ := hcontent.start
    unfold Text.isBlank
    rw [List.all_append, heq, List.all_cons, hc, Bool.false_and, Bool.and_false]
  unfold next?
  simp only [hblank, Bool.false_eq_true, if_false, indentation_margin hmargin hcontent]
  rw [if_neg (by omega)]
  rfl

/-- A line that is not open is complete. -/
theorem ofPhysical_cons (hmargin : Margin strict n margin) (hcontent : Fit content)
    (hlevel : n ≤ level + 1) (number : Nat) (physical : List (List Char × Nat)) :
    ofPhysical strict level none ((margin ++ content, number) :: physical) =
      (ofPhysical strict n none physical).map (⟨n, content, number⟩ :: ·) := by
  rw [ofPhysical, next?_written hmargin hcontent hlevel]
  simp only [bind, Except.bind, hcontent.closed, Bool.false_eq_true, if_false]
  cases ofPhysical strict n none physical <;> rfl

/-- **The lines are classified as they were written**, with their levels. -/
theorem ofPhysical_written {rows : List (Nat × List Char)} {s : List Char}
    (h : Written strict rows s) : ∀ level number : Nat, (∀ row ∈ rows, Fit row.2) →
      Steps level rows → ∃ ls, ofPhysical strict level none ((Text.lines s).zipIdx number) = .ok ls ∧
        ls.map row = rows := by
  induction h with
  | nil => exact fun _ _ _ _ => ⟨[], rfl, rfl⟩
  | @last n margin content hmargin =>
    intro level number hrows hsteps
    have hfit : Fit content := hrows (n, content) (by simp)
    refine ⟨[⟨n, content, number⟩], ?_, rfl⟩
    rw [lines_last hmargin hfit, List.zipIdx_cons, ofPhysical_cons hmargin hfit hsteps.1]
    rfl
  | @line n margin content s rows hmargin _ ih =>
    intro level number hrows hsteps
    rw [List.forall_mem_cons] at hrows
    have hfit : Fit content := hrows.1
    obtain ⟨ls, hls, hmap⟩ := ih n (number + 1) hrows.2 hsteps.2
    refine ⟨⟨n, content, number⟩ :: ls, ?_, by rw [List.map_cons, hmap]; rfl⟩
    rw [lines_line hmargin hfit, List.zipIdx_cons, ofPhysical_cons hmargin hfit hsteps.1, hls]
    rfl

theorem classify_written {ps : List Plan} {s : List Char}
    (h : Written strict (Plan.rowsOf 0 ps) s) (hrows : ∀ row ∈ Plan.rowsOf 0 ps, Fit row.2) :
    ∃ ls, classify strict s = .ok ls ∧ ls.map row = Plan.rowsOf 0 ps := by
  have hsteps : Steps 0 (Plan.rowsOf 0 ps ++ []) :=
    steps_rowsOf (Nat.zero_le 1) fun _ _ => trivial
  rw [List.append_nil] at hsteps
  exact ofPhysical_written h 0 1 hrows hsteps

end Line

/-! ## Nesting -/

/-- The nested lines are those of the plans at a level. -/
inductive Nested : Nat → List Plan → List Nest → Prop
  | nil {n : Nat} : Nested n [] []
  | cons {n number : Nat} {content : List Char} {plans ps : List Plan} {inner nests : List Nest}
    (hinner : Nested (n + 1) plans inner) (h : Nested n ps nests) :
    Nested n (.mk content plans :: ps) (.mk ⟨n, content, number⟩ inner :: nests)

theorem Nested.indent {n : Nat} {ps : List Plan} {nests : List Nest} (h : Nested n ps nests) :
    ∀ x ∈ nests, x.line.indent = n := by
  induction h with
  | nil => simp
  | cons _ _ _ ih => simpa using ⟨rfl, ih⟩

/-- What stands behind lines of a level does not belong below them. -/
def EndsLevel (n : Nat) (following : List Nest) : Prop := ∀ x ∈ following.head?, x.line.indent ≤ n

/-- What is deeper than a line is nested below it, up to what is not. -/
theorem Nest.cons_append {l : Line} {inner following : List Nest}
    (hinner : ∀ x ∈ inner, isBelow l.indent x = true)
    (hfollowing : ∀ x ∈ following.head?, isBelow l.indent x = false) :
    cons l (inner ++ following) = .mk l inner :: following := by
  unfold cons
  rw [List.takeWhile_append_of_pos hinner, List.dropWhile_append_of_pos hinner]
  cases following with
  | nil => simp
  | cons x following => simp [hfollowing x rfl]

theorem cons_nested {n number : Nat} {content : List Char} {plans : List Plan}
    {inner following : List Nest} (hinner : Nested (n + 1) plans inner)
    (hfollowing : EndsLevel n following) :
    Nest.cons ⟨n, content, number⟩ (inner ++ following) =
      .mk ⟨n, content, number⟩ inner :: following := by
  refine Nest.cons_append (fun x hx => decide_eq_true ?_) fun x hx =>
    decide_eq_false (Nat.not_lt.2 (hfollowing x hx))
  rw [hinner.indent x hx]
  exact Nat.lt_succ_self n

mutual

theorem foldr_rows {n : Nat} : ∀ {p : Plan} {ls : List Line} {following : List Nest},
    ls.map Line.row = p.rows n → EndsLevel n following →
      ∃ nest, ls.foldr Nest.cons following = nest :: following ∧ Nested n [p] [nest]
  | .mk content nested, ls, following, hls, hfollowing => by
    rw [Plan.rows] at hls
    obtain ⟨l, below, rfl, hl, hlines⟩ := List.map_eq_cons_iff.1 hls
    obtain ⟨indent, c, number⟩ := l
    obtain ⟨rfl, rfl⟩ := Prod.mk.inj hl
    have hdeeper : EndsLevel (indent + 1) following := fun x hx =>
      Nat.le_succ_of_le (hfollowing x hx)
    obtain ⟨inner, hfold, hinner⟩ := foldr_rowsOf hlines hdeeper
    refine ⟨.mk ⟨indent, c, number⟩ inner, ?_, .cons hinner .nil⟩
    rw [List.foldr_cons, hfold]
    exact cons_nested hinner hfollowing

/-- **What was written below a line is found below it.** -/
theorem foldr_rowsOf {n : Nat} : ∀ {ps : List Plan} {ls : List Line} {following : List Nest},
    ls.map Line.row = Plan.rowsOf n ps → EndsLevel n following →
      ∃ nests, ls.foldr Nest.cons following = nests ++ following ∧ Nested n ps nests
  | [], ls, following, hls, _ => by
    obtain rfl := List.map_eq_nil_iff.1 hls
    exact ⟨[], rfl, .nil⟩
  | p :: ps, ls, following, hls, hfollowing => by
    obtain ⟨first, others, rfl, hfirst, hothers⟩ := List.map_eq_append_iff.1 hls
    obtain ⟨nests, hfold, hnests⟩ := foldr_rowsOf hothers hfollowing
    have hends : EndsLevel n (nests ++ following) := by
      cases nests with
      | nil => exact hfollowing
      | cons x nests => exact fun y hy => by cases hy; exact Nat.le_of_eq (hnests.indent x (by simp))
    obtain ⟨nest, hfold', hnest⟩ := foldr_rows hfirst hends
    refine ⟨nest :: nests, ?_, ?_⟩
    · rw [List.foldr_append, hfold, hfold']
      rfl
    · cases hnest with
      | cons hinner _ => exact .cons hinner hnests

end

theorem Nest.ofLines_rows {ps : List Plan} {ls : List Line} (h : ls.map Line.row = Plan.rowsOf 0 ps) :
    Nested 0 ps (Nest.ofLines ls) := by
  have hends : EndsLevel 0 [] := fun _ hx => by cases hx
  obtain ⟨nests, hfold, hnests⟩ := foldr_rowsOf h hends
  rw [List.append_nil] at hfold
  rw [Nest.ofLines, hfold]
  exact hnests

/-- **The nested lines of an outline are those that it was written from.** -/
theorem nested_written {strict : Bool} {ps : List Plan} {s : List Char}
    (h : Written strict (Plan.rowsOf 0 ps) s) (hrows : ∀ row ∈ Plan.rowsOf 0 ps, Fit row.2) :
    ∃ ls, Line.classify strict s = .ok ls ∧ Nested 0 ps (Nest.ofLines ls) := by
  obtain ⟨ls, hclassify, hls⟩ := Line.classify_written h hrows
  exact ⟨ls, hclassify, Nest.ofLines_rows hls⟩

end Stencil.Outline
