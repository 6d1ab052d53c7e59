import Stencil.Proofs.Outline.Brackets
import Stencil.Proofs.Outline.Division

/-!
# The bodies of filters

What is nested below a filter is read into lines before it is known that it belongs to a filter. A
physical line that looks like an open statement or an open tag is joined with the one behind it there as
anywhere, and this is the only way in which the body of a filter differs from its physical lines.

* `nestedLines` are the physical lines nested below a line, and `verbatim` is the text that they make.
* `map_bodyLine_eq_iff` says that logical and physical lines agree exactly if no physical line is open.
* `filter_verbatim_iff` says so of the bodies of all filters in the nodes of a source.
-/

namespace Stencil.Outline

open Text (isBlank trim trimEnd trimStart)

/-! ## Texts without line feeds -/

/-- Lines are told apart by the text that they make, unless there are none. -/
theorem intercalate_inj {sep : Char} {xs ys : List (List Char)} (hxs : ∀ x ∈ xs, sep ∉ x)
    (hys : ∀ y ∈ ys, sep ∉ y) (hnil : xs = [] ↔ ys = [])
    (h : List.intercalate [sep] xs = List.intercalate [sep] ys) : xs = ys := by
  by_cases hempty : xs = []
  · rw [hempty, hnil.1 hempty]
  · rw [← List.splitOn_intercalate sep hxs hempty, h,
      List.splitOn_intercalate sep hys fun hys => hempty (hnil.2 hys)]

theorem trimEnd_sublist (s : List Char) : (trimEnd s).Sublist s := by
  rw [trimEnd, ← List.reverse_sublist, List.reverse_reverse]
  exact List.dropWhile_sublist _

theorem trim_sublist (s : List Char) : (trim s).Sublist s :=
  (trimEnd_sublist _).trans (List.dropWhile_sublist _)

namespace Line

variable {strict : Bool} {l : Line} {c : Char}

theorem not_mem_indentation {raw : List Char} (h : c ∉ raw) : c ∉ (indentation strict raw).2 := by
  obtain ⟨margin, hraw, -, -⟩ := indentation_spec strict raw
  rw [hraw] at h
  exact fun hmem => h (List.mem_append_right margin hmem)

/-- A line is joined of the characters of its parts and spaces. -/
theorem not_mem_join {raw : List Char} (hc : c ≠ ' ') (hl : c ∉ l.content) (hraw : c ∉ raw) :
    c ∉ (l.join raw).content := by
  have hdrop : ∀ s, (dropBackslash s).Sublist s := fun s => by
    unfold dropBackslash
    split
    · exact List.dropLast_sublist s
    · exact .refl s
  have hleft := (trim_sublist _).trans ((hdrop _).trans (trimEnd_sublist l.content))
  simp only [join, List.mem_append, List.mem_cons, not_or]
  exact ⟨fun h => hl (hleft.subset h), hc, fun h => hraw ((trim_sublist raw).subset h)⟩

theorem not_mem_foldl_join {following : List (List Char)} (hc : c ≠ ' ') (hl : c ∉ l.content)
    (h : ∀ raw ∈ following, c ∉ raw) : c ∉ (following.foldl join l).content := by
  induction following generalizing l with
  | nil => exact hl
  | cons raw following ih =>
    rw [List.forall_mem_cons] at h
    exact ih (not_mem_join hc hl h.1) h.2

end Line

theorem dropReturn_sublist (s : List Char) : (Text.dropReturn s).Sublist s := by
  unfold Text.dropReturn
  split
  · next r heq =>
    rw [← List.reverse_sublist, List.reverse_reverse, heq]
    exact List.sublist_cons_self _ r
  · exact .refl s

theorem not_mem_linesFrom (s : List Char) : ∀ done, '\n' ∉ done →
    ∀ raw ∈ Text.linesFrom done s, '\n' ∉ raw := by
  induction s with
  | nil =>
    intro done hdone raw hraw
    rw [Text.linesFrom] at hraw
    split at hraw
    · cases hraw
    · rwa [List.mem_singleton.1 hraw, List.mem_reverse]
  | cons c s ih =>
    intro done hdone raw hraw
    rw [Text.linesFrom] at hraw
    split at hraw
    · rcases List.mem_cons.1 hraw with rfl | hraw
      · exact fun h => hdone (List.mem_reverse.1 ((dropReturn_sublist _).subset h))
      · exact ih [] (by simp) raw hraw
    · next hc => exact ih (c :: done) (by simp [hdone, Ne.symm hc]) raw hraw

/-- No physical line has a line feed. -/
theorem not_mem_lines {source raw : List Char} (h : raw ∈ Text.lines source) : '\n' ∉ raw :=
  not_mem_linesFrom source [] (by simp) raw h

/-! ## Physical and logical lines of a body -/

/-- What a line of a filter body below a line at `level` is written as. -/
def bodyLine (level : Nat) (l : Line) : List Char :=
  (List.replicate (l.indent - level - 1) [' ', ' ']).flatten ++ l.content

theorem filterBody_eq (level : Nat) (ls : List Line) :
    filterBody level ls = List.intercalate ['\n'] (ls.map (bodyLine level)) := rfl

theorem not_mem_bodyLine {level : Nat} {l : Line} (h : '\n' ∉ l.content) : '\n' ∉ bodyLine level l := by
  simp [bodyLine, h]

/-- The physical lines that are nested below a line at `level`, blank ones apart: those that follow it
up to the first that is not deeper. -/
def nestedLines (strict : Bool) (level : Nat) (behind : List (List Char)) : List (List Char) :=
  (behind.filter fun raw => !isBlank raw).takeWhile fun raw => level < (Line.indentation strict raw).1

/-- A physical line without the levels up to the body, and with two spaces for each level more. -/
def reindented (strict : Bool) (level : Nat) (raw : List Char) : List Char :=
  (List.replicate ((Line.indentation strict raw).1 - level - 1) [' ', ' ']).flatten ++
    (Line.indentation strict raw).2

/-- The physical lines that are nested below a line at `level`, unchanged behind their indentation. -/
def verbatim (strict : Bool) (level : Nat) (behind : List (List Char)) : List Char :=
  List.intercalate ['\n'] ((nestedLines strict level behind).map (reindented strict level))

/-- Whether a physical line looks like a statement or a tag that goes on. -/
def looksOpen (strict : Bool) (raw : List Char) : Bool := (Line.start strict raw 0).isOpen

variable {strict : Bool} {level : Nat}

/-- What a logical line and a physical line of the same level are written as. -/
theorem bodyLine_eq_reindented_iff {l : Line} {raw : List Char}
    (h : l.indent = (Line.indentation strict raw).1) :
    bodyLine level l = reindented strict level raw ↔ l.content = (Line.indentation strict raw).2 := by
  rw [bodyLine, reindented, h, List.append_cancel_left_eq]

/-- Lines with one content are open alike. -/
theorem isOpen_congr {l m : Line} (h : l.content = m.content) : l.isOpen = m.isOpen := by
  obtain ⟨_, content, _⟩ := l
  obtain ⟨_, _, _⟩ := m
  subst h
  rfl

theorem Extent.EndsBefore.following_eq_nil_of_closed {e : Extent} {behind : List (List Char × Nat)}
    (hends : e.EndsBefore strict behind) (h : (e.first strict).isOpen = false) : e.following = [] := by
  cases hfollowing : e.following with
  | nil => rfl
  | cons raw more =>
    have hgoes := hends.goesOn
    rw [hfollowing] at hgoes
    exact absurd hgoes.1 (by simp [h])

/-- A line is the physical line that it starts on exactly if this is closed. -/
theorem Extent.content_eq_iff {e : Extent} {behind : List (List Char × Nat)}
    (hends : e.EndsBefore strict behind) (hclosed : (e.line strict).isOpen = false) :
    (e.line strict).content = (Line.indentation strict e.start).2 ↔ looksOpen strict e.start = false := by
  have hfirst : (e.first strict).isOpen = looksOpen strict e.start := isOpen_congr rfl
  constructor
  · intro h
    rw [← hfirst, ← hclosed]
    exact isOpen_congr h.symm
  · intro h
    rw [Extent.line, hends.following_eq_nil_of_closed (hfirst.trans h)]
    rfl

/-- **Logical lines below a level agree with the physical ones exactly if none of these is open.** -/
theorem map_bodyLine_eq_iff (level : Nat) {physical : List (List Char × Nat)} {es : List Extent}
    (h : Division strict physical es) (hclosed : ∀ e ∈ es, (e.line strict).isOpen = false) :
    ((es.map (Extent.line strict)).takeWhile fun l => level < l.indent).map (bodyLine level) =
        (nestedLines strict level (physical.map Prod.fst)).map (reindented strict level) ↔
      ∀ raw ∈ nestedLines strict level (physical.map Prod.fst), looksOpen strict raw = false := by
  induction h with
  | nil => simp [nestedLines]
  | blank hblank h ih => simpa [nestedLines, hblank] using ih hclosed
  | @line e behind es hblank hends h ih =>
    rw [List.forall_mem_cons] at hclosed
    have hindent : (e.line strict).indent = (Line.indentation strict e.start).1 := e.line_indent strict
    have hphysical : (e.physical ++ behind).map Prod.fst =
        e.start :: (e.following ++ behind.map Prod.fst) := by
      rw [e.physical_append]
      simp
    rw [hphysical]
    by_cases hdeeper : level < (Line.indentation strict e.start).1
    · have hnested : nestedLines strict level (e.start :: (e.following ++ behind.map Prod.fst)) =
          e.start :: nestedLines strict level (e.following ++ behind.map Prod.fst) := by
        simp [nestedLines, hblank, hdeeper]
      have hlines : ((e :: es).map (Extent.line strict)).takeWhile (fun l => level < l.indent) =
          e.line strict :: (es.map (Extent.line strict)).takeWhile fun l => level < l.indent := by
        simp [hindent, hdeeper]
      rw [hnested, hlines, List.map_cons, List.map_cons, List.cons.injEq, List.forall_mem_cons,
        bodyLine_eq_reindented_iff hindent, e.content_eq_iff hends hclosed.1]
      refine and_congr_right fun hstart => ?_
      rw [hends.following_eq_nil_of_closed ((isOpen_congr rfl).trans hstart), List.nil_append]
      exact ih hclosed.2
    · simp [nestedLines, hblank, hindent, hdeeper]

/-- There are lines below a level if there are physical ones. -/
theorem takeWhile_eq_nil_iff (level : Nat) {physical : List (List Char × Nat)} {es : List Extent}
    (h : Division strict physical es) :
    ((es.map (Extent.line strict)).takeWhile fun l => level < l.indent) = [] ↔
      nestedLines strict level (physical.map Prod.fst) = [] := by
  induction h with
  | nil => simp [nestedLines]
  | blank hblank h ih => simpa [nestedLines, hblank] using ih
  | @line e behind es hblank hends h ih =>
    have hindent : (e.line strict).indent = (Line.indentation strict e.start).1 := e.line_indent strict
    rw [e.physical_append]
    by_cases hdeeper : level < (Line.indentation strict e.start).1 <;>
      simp [nestedLines, hblank, hindent, hdeeper]

namespace Division

theorem mem_raws {raws : List (List Char)} {n : Nat} {es : List Extent} {e : Extent}
    (h : Division strict (raws.zipIdx n) es) (he : e ∈ es) {raw : List Char}
    (hraw : raw ∈ e.start :: e.following) : raw ∈ raws := by
  obtain ⟨before, behind, hraws, -⟩ := h.located he
  rw [hraws]
  refine List.mem_append_right before ?_
  rw [← List.cons_append]
  exact List.mem_append_left _ hraw

/-- Behind an extent the physical lines are divided further. -/
theorem split {physical : List (List Char × Nat)} {before after : List Extent} {e : Extent}
    (h : Division strict physical (before ++ e :: after)) : ∃ done behind,
      physical = done ++ (e.physical ++ behind) ∧ e.EndsBefore strict behind ∧
        Division strict behind after := by
  generalize hes : before ++ e :: after = es at h
  induction h generalizing before with
  | nil => simp at hes
  | blank _ _ ih =>
    obtain ⟨done, behind, rfl, hends, h⟩ := ih hes
    exact ⟨_ :: done, behind, rfl, hends, h⟩
  | @line e' behind es _ hends h ih =>
    cases before with
    | nil =>
      obtain ⟨rfl, rfl⟩ := List.cons.inj hes
      exact ⟨[], behind, rfl, hends, h⟩
    | cons e'' before =>
      obtain ⟨rfl, htail⟩ := List.cons.inj hes
      obtain ⟨done, behind, rfl, hends, h⟩ := ih htail
      exact ⟨e''.physical ++ done, behind, by simp, hends, h⟩

/-- An extent of one physical line is a line of the source, and the lines behind it are divided
further. -/
theorem split_single {raws : List (List Char)} {n : Nat} {es after : List Extent} {e : Extent}
    (h : Division strict (raws.zipIdx n) (es ++ e :: after))
    (hsingle : ∀ {behind}, e.EndsBefore strict behind → e.following = []) :
    e.following = [] ∧ ∃ before behind, raws = before ++ e.start :: behind ∧
      e.number = n + before.length ∧ Division strict (behind.zipIdx (e.number + 1)) after := by
  obtain ⟨done, behind, hphysical, hends, hbehind⟩ := h.split
  obtain ⟨before, raws, hraws, -, hzip⟩ := List.zipIdx_eq_append_iff.1 hphysical
  have hnil := hsingle hends
  rw [e.physical_append, hnil] at hzip
  cases raws with
  | nil => cases hzip
  | cons raw raws =>
    rw [List.zipIdx_cons] at hzip
    obtain ⟨hstart, rfl⟩ := List.cons.inj hzip
    obtain ⟨rfl, hnumber⟩ := Prod.mk.inj hstart
    exact ⟨hnil, before, raws, hraws, hnumber, hnumber ▸ hbehind⟩

end Division

/-- The text of a body is the verbatim one exactly if no physical line of it is open. -/
theorem filterBody_eq_verbatim_iff {raws : List (List Char)} {n : Nat} {es : List Extent}
    (h : Division strict (raws.zipIdx n) es) (hclosed : ∀ e ∈ es, (e.line strict).isOpen = false)
    (hraws : ∀ raw ∈ raws, '\n' ∉ raw) :
    filterBody level ((es.map (Extent.line strict)).takeWhile fun l => level < l.indent) =
        verbatim strict level raws ↔
      ∀ raw ∈ nestedLines strict level raws, looksOpen strict raw = false := by
  have hfst : (raws.zipIdx n).map Prod.fst = raws := List.zipIdx_map_fst n raws
  have hiff := map_bodyLine_eq_iff level h hclosed
  have hnil := takeWhile_eq_nil_iff level h
  rw [hfst] at hiff hnil
  rw [← hiff, filterBody_eq, verbatim]
  -- No line of either text has a line feed in it, so the texts are equal only if the lines are.
  refine ⟨fun heq => intercalate_inj ?_ ?_ ?_ heq, fun heq => by rw [heq]⟩
  · refine List.forall_mem_map.2 fun l hl => not_mem_bodyLine ?_
    obtain ⟨e, he, rfl⟩ := List.mem_map.1 ((List.takeWhile_sublist _).subset hl)
    refine Line.not_mem_foldl_join (by decide) (Line.not_mem_indentation ?_) fun raw hraw => ?_
    · exact hraws _ (h.mem_raws he List.mem_cons_self)
    · exact hraws _ (h.mem_raws he (List.mem_cons_of_mem _ hraw))
  · refine List.forall_mem_map.2 fun raw hraw => ?_
    have hmem := (List.mem_filter.1 ((List.takeWhile_sublist _).subset hraw)).1
    exact not_mem_bodyLine (l := Line.start strict raw 0) (Line.not_mem_indentation (hraws raw hmem))
  · rw [List.map_eq_nil_iff, List.map_eq_nil_iff, hnil]

/-! ## Sources -/

/-- What a filter is handed that stands on the physical line `raw` in front of the physical lines
`behind`. -/
structure HandedOver (s : Settings) (strict : Bool) (raw : List Char) (behind : List (List Char))
    (place : Place) (f : Filter) (body : List Char) : Prop where
  level : place.level = (Line.indentation strict raw).1
  triggers : ∃ trigger, (Line.indentation strict raw).2 = ':' :: trigger ∧
    s.filter? (String.ofList (trim trigger)) = some f
  /-- The body is made of the logical lines nested below. -/
  joined : ∃ es, Division strict (behind.zipIdx (place.line + 1)) es ∧ body =
    filterBody place.level ((es.map (Extent.line strict)).takeWhile fun l => place.level < l.indent)
  /-- It is made of the physical lines exactly if none of them is open. -/
  verbatim_iff : body = verbatim strict place.level behind ↔
    ∀ r ∈ nestedLines strict place.level behind, looksOpen strict r = false

variable {s : Settings}

/-- The lines of a run are those up to the first that is not deeper. -/
theorem IsRun.takeWhile_eq {l : Line} {below behind : List Line} (h : IsRun l below behind) :
    (below ++ behind).takeWhile (fun m => l.indent < m.indent) = below := by
  rw [List.takeWhile_append_of_pos fun m hm => decide_eq_true (h.deeper m hm)]
  cases behind with
  | nil => simp
  | cons m behind => simp [h.stops m rfl]

/-- The line of a trigger stands alone. -/
theorem Line.Triggers.following_eq_nil {f : Filter} {e : Extent} {behind : List (List Char × Nat)}
    (h : (e.line strict).Triggers s f) (hends : e.EndsBefore strict behind) : e.following = [] := by
  obtain ⟨trigger, htrigger, -⟩ := h
  refine e.following_eq_nil hends.goesOn ?_ ?_
  · cases htag : (e.line strict).isTag with
    | false => rfl
    | true =>
      rw [after?_of_startsIn htag rfl] at htrigger
      cases htrigger
  · cases haction : (e.line strict).isActionable with
    | false => rfl
    | true =>
      rw [after?_of_startsIn haction rfl] at htrigger
      cases htrigger

/-- **A filter is handed its physical lines unchanged exactly if none of them is open**: it gets the
logical lines that are nested below its own. -/
theorem filter_verbatim_iff {source : List Char} {ls : List Line} {ts us : List Tree} {place : Place}
    {f : Filter} {body : List Char} (hclassify : Line.classify strict source = .ok ls)
    (hanalyze : analyze s ls = .ok ts) (hus : Tree.ListIn ts us) (hfilter : .filter place f body ∈ us) :
    ∃ before raw behind, Text.lines source = before ++ raw :: behind ∧
      place.line = before.length + 1 ∧ HandedOver s strict raw behind place f body := by
  obtain ⟨es, hdivision⟩ := exists_division strict (Text.lines source) 1
  rw [Line.classify, Line.ofPhysical_division hdivision,
    Extent.verdict_eq_ok hdivision.onlyLastOpen] at hclassify
  obtain ⟨⟨-, hclosed⟩, rfl⟩ := hclassify
  obtain ⟨lb, l, below, lbehind, hls, rfl, hf, hrun, rfl, -⟩ :=
    (orderly_analyze hanalyze us hus).filters _ _ _ hfilter
  obtain ⟨eb, es', rfl, -, hes'⟩ := List.map_eq_append_iff.1 hls
  obtain ⟨e, after, rfl, rfl, hafter⟩ := List.map_eq_cons_iff.1 hes'
  obtain ⟨hnil, before, behind, hraws, hnumber, hbehind⟩ := hdivision.split_single hf.following_eq_nil
  have hline : (e.line strict).content = (Line.indentation strict e.start).2 := by
    rw [Extent.line, hnil]
    rfl
  have hplace : (e.line strict).place.line = e.number := e.line_number strict
  have hbelow : below = (after.map (Extent.line strict)).takeWhile fun m =>
      (e.line strict).place.level < m.indent := by
    rw [hafter]
    exact hrun.takeWhile_eq.symm
  obtain ⟨trigger, htrigger, hf⟩ := hf
  rw [hline] at htrigger
  rw [← hplace] at hbehind
  rw [hbelow]
  refine ⟨before, e.start, behind, hraws, by rw [hplace, hnumber, Nat.add_comm], ?_⟩
  refine ⟨e.line_indent strict, ⟨trigger, Text.after?_eq_some_iff.1 htrigger, hf⟩,
    ⟨after, hbehind, rfl⟩, ?_⟩
  refine filterBody_eq_verbatim_iff hbehind (fun e' he' => hclosed e' (by simp [he'])) ?_
  intro r hr
  have hmem : r ∈ Text.lines source := hraws ▸ by simp [hr]
  exact not_mem_lines hmem

/-- Text below a filter, with a blank line in it, and one line deeper than the others. -/
theorem filter_verbatim_iff_css : ∃ before raw behind,
    Text.lines "p\n:css\n  a\n\n    b \\\n  c\nd".toList = before ++ raw :: behind ∧ 2 = before.length + 1 ∧
      HandedOver .standard false raw behind ⟨2, 0⟩ (.make "css" "<style>" "</style>" id)
        "a\n  b \\\nc".toList := by
  have hclassify : Line.classify false "p\n:css\n  a\n\n    b \\\n  c\nd".toList =
    .ok [⟨0, "p".toList, 1⟩, ⟨0, ":css".toList, 2⟩, ⟨1, "a".toList, 3⟩, ⟨2, "b \\".toList, 5⟩,
      ⟨1, "c".toList, 6⟩, ⟨0, "d".toList, 7⟩] := rfl
  have hanalyze : analyze .standard [⟨0, "p".toList, 1⟩, ⟨0, ":css".toList, 2⟩, ⟨1, "a".toList, 3⟩,
      ⟨2, "b \\".toList, 5⟩, ⟨1, "c".toList, 6⟩, ⟨0, "d".toList, 7⟩] =
    .ok [.text ⟨1, 0⟩ "p".toList, .filter ⟨2, 0⟩ (.make "css" "<style>" "</style>" id)
      "a\n  b \\\nc".toList, .text ⟨7, 0⟩ "d".toList] := rfl
  exact filter_verbatim_iff hclassify hanalyze .root (List.mem_cons_of_mem _ List.mem_cons_self)

/-- A rule of a style sheet looks like a tag, so its line is joined with the one behind it. -/
theorem filter_joins_open_line : ∃ ls,
    Text.lines ":css\n  .a \\\n  b".toList = [":css".toList, "  .a \\".toList, "  b".toList] ∧
      Line.classify false ":css\n  .a \\\n  b".toList = .ok ls ∧
      analyze .standard ls =
        .ok [.filter ⟨1, 0⟩ (.make "css" "<style>" "</style>" id) ".a b".toList] ∧
      verbatim false 0 ["  .a \\".toList, "  b".toList] = ".a \\\nb".toList :=
  ⟨[⟨0, ":css".toList, 1⟩, ⟨1, ".a b".toList, 2⟩], rfl, rfl, rfl, rfl⟩

end Stencil.Outline
