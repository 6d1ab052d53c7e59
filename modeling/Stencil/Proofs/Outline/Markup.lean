import Stencil.Proofs.Outline.Program
import Stencil.Proofs.Outline.Tag
import Stencil.Proofs.Render.Literal

/-!
# Markup in an outline

The outline of markup without statements renders to its HTML.

* `fit_sketch` says that the lines of markup can be lines of an outline.
* `Build.Prints act s` says that a computation writes the text `s` and no other node; `draws_sketch`
  says that nested lines print the HTML, by induction over the outline.
* `render_markup` concludes for a whole source, whatever its indentation is made of.
-/

namespace Stencil

/-! ## Computations that write text -/

namespace Build

/-- The computation succeeds, and all that it writes is a text. -/
def Prints (act : Build PUnit) (s : List Char) : Prop :=
  ∀ b, ∃ b', act b = .ok ⟨⟩ b' ∧ b'.closed = b.closed ∧ b'.openText = b.openText ++ s

namespace Prints

variable {act act' : Build PUnit} {s t : List Char}

theorem pure : Prints (Pure.pure ⟨⟩) [] := fun b => ⟨b, rfl, rfl, (List.append_nil _).symm⟩

theorem text (s : List Char) : Prints (Build.text (String.ofList s)) s := fun b => by
  obtain ⟨hclosed, hopen⟩ := b.closed_text (String.ofList s)
  rw [String.toList_ofList] at hopen
  exact ⟨b.text (String.ofList s), rfl, hclosed, hopen⟩

theorem seq (h : Prints act s) (h' : Prints act' t) : Prints (do act; act') (s ++ t) := fun b => by
  obtain ⟨c, hc, hclosed, hopen⟩ := h b
  obtain ⟨c', hc', hclosed', hopen'⟩ := h' c
  exact ⟨c', (bind_ok hc _).trans hc', hclosed'.trans hclosed,
    by rw [hopen', hopen, List.append_assoc]⟩

theorem space (pad : Bool) : Prints (Build.space pad) (if pad then [' '] else []) := by
  cases pad with
  | false => exact pure
  | true => exact text [' ']

/-- A text without a statement in it. -/
theorem interpolated {settings : Settings} (h : Text.cut? settings.delimiters.opening s = none)
    (pad : Bool) (line : Nat) :
    Prints (Build.interpolated settings s pad line) (s ++ if pad then [' '] else []) := by
  rw [interpolated_plain h]
  exact (text s).seq (space pad)

end Prints

end Build

/-- A builder that has written text only holds it as one node, if there is any. -/
theorem Builder.nodes_of_closed {b : Builder} (h : b.closed = []) :
    ∃ texts, b.nodes = texts.map .text ∧ String.join texts = String.ofList b.openText := by
  obtain ⟨context, emitted, events⟩ := b
  unfold closed at h
  unfold nodes openText
  split at h
  · next t ns heq =>
    obtain rfl := List.reverse_eq_nil_iff.1 h
    obtain rfl : emitted = _ := heq
    exact ⟨[t], rfl, by simp⟩
  · obtain rfl : emitted = _ := List.reverse_eq_nil_iff.1 h
    exact ⟨[], rfl, rfl⟩

namespace Outline

open Build (Prints)

/-! ## Lines -/

/-- The text is part of one line. -/
def OneLine (s : List Char) : Prop := ∀ c ∈ s, c ≠ '\n' ∧ c ≠ '\r'

theorem IsPiece.oneLine {s : List Char} (h : IsPiece s) : OneLine s := fun _ hc =>
  ⟨fun heq => h.feed (heq ▸ hc), fun heq => h.carriage (heq ▸ hc)⟩

theorem oneLine_append {s t : List Char} (hs : OneLine s) (ht : OneLine t) : OneLine (s ++ t) :=
  fun c hc => (List.mem_append.1 hc).elim (hs c) (ht c)

theorem oneLine_cons {c : Char} {s : List Char} (hc : c ≠ '\n' ∧ c ≠ '\r') (hs : OneLine s) :
    OneLine (c :: s) :=
  List.forall_mem_cons.2 ⟨hc, hs⟩

theorem oneLine_compact {cs is : List (List Char)} {s : List Char} (h : Compact cs is s) :
    (∀ c ∈ cs, IsLabel c) → (∀ i ∈ is, IsLabel i) → OneLine s := by
  induction h with
  | nil => exact fun _ _ => nofun
  | cls _ ih =>
    intro hcs his
    rw [List.forall_mem_cons] at hcs
    exact oneLine_cons (by decide) (oneLine_append hcs.1.piece.oneLine (ih hcs.2 his))
  | id _ ih =>
    intro hcs his
    rw [List.forall_mem_cons] at his
    exact oneLine_cons (by decide) (oneLine_append his.1.piece.oneLine (ih hcs his.2))

theorem oneLine_attribute {a : Attribute} (h : a.IsStatic) : OneLine a.text := by
  obtain ⟨name, value⟩ := a
  refine oneLine_append h.name.oneLine ?_
  cases value with
  | none => exact nofun
  | some v =>
    exact oneLine_cons (by decide) (oneLine_cons (by decide)
      (oneLine_append (h.value v rfl).1.oneLine (oneLine_cons (by decide) nofun)))

theorem oneLine_attributes {as : List Attribute} (h : ∀ a ∈ as, a.IsStatic) :
    OneLine (List.intercalate [' '] (as.map Attribute.text)) := by
  induction as with
  | nil => exact nofun
  | cons a as ih =>
    rw [List.forall_mem_cons] at h
    cases as with
    | nil =>
      rw [List.map_singleton, List.intercalate_singleton]
      exact oneLine_attribute h.1
    | cons b as =>
      rw [List.map_cons, List.map_cons, List.intercalate_cons_cons, ← List.map_cons]
      exact oneLine_append (oneLine_append (oneLine_attribute h.1) (oneLine_cons (by decide) nofun))
        (ih h.2)

theorem oneLine_brackets {as : List Attribute} {s : List Char} (h : Bracketed as s)
    (has : ∀ a ∈ as, a.IsStatic) : OneLine s := by
  cases h with
  | omitted => exact nofun
  | some =>
    exact oneLine_cons (by decide)
      (oneLine_append (oneLine_attributes has) (oneLine_cons (by decide) nofun))

theorem oneLine_line {e : Element} (he : e.IsStatic) {content : List Char} (h : e.IsLine content) :
    OneLine content := by
  obtain ⟨compact, brackets, hcompact, hbrackets, rfl⟩ := h
  have hbehind : OneLine (brackets ++ e.trailing) :=
    oneLine_append (oneLine_brackets hbrackets he.attributes) he.trailing.oneLine
  exact oneLine_cons (by decide) (oneLine_append he.name.piece.oneLine
    (oneLine_append (oneLine_compact hcompact he.classes he.ids) hbehind))

theorem isTag_line {e : Element} {content : List Char} (h : e.IsLine content) (n number : Nat) :
    (Line.mk n content number).isTag = true ∧ (Line.mk n content number).isActionable = false := by
  obtain ⟨compact, brackets, -, -, rfl⟩ := h
  exact ⟨rfl, rfl⟩

theorem fit_line {e : Element} (he : e.IsStatic) {content : List Char} (h : e.IsLine content)
    (hlast : content.getLast? ≠ some '\\') : Fit content := by
  have hone := oneLine_line he h
  refine ⟨?_, fun hmem => (hone _ hmem).1 rfl,
    fun hreturn => (hone _ (List.mem_of_getLast? hreturn)).2 rfl, fun n number => ?_⟩
  · obtain ⟨compact, brackets, -, -, rfl⟩ := h
    exact ⟨'%', _, rfl, rfl⟩
  · simp [Line.isOpen, isTag_line h, hlast]

/-- **The lines of markup can be lines of an outline.** -/
theorem fit_sketch {ms : List Markup} {plans : List Plan} (h : Sketches ms plans) :
    Markup.AreStatic ms → ∀ n, ∀ row ∈ Plan.rowsOf n plans, Fit row.2 := by
  induction h with
  | nil => exact fun _ _ => nofun
  | text _ ih =>
    intro hms n
    exact forall_rowsOf_cons (fit_of_isTextLine hms.1) nofun (ih hms.2 n)
  | element hline hlast _ _ ihchildren ih =>
    intro hms n
    exact forall_rowsOf_cons (fit_line hms.1.1 hline hlast) (ihchildren hms.1.2 _) (ih hms.2 n)

/-! ## Nodes -/

section Nodes

variable {s : Settings} {e : Element} {content : List Char} {n number : Nat} {nests : List Nest}
  {trees : List Tree}

/-- An element with nothing inside it. -/
theorem ofNests_leaf (hline : e.IsLine content) (hrest : Tree.ofNests s nests = .ok trees) :
    Tree.ofNests s (.mk ⟨n, content, number⟩ [] :: nests) =
      .ok (.leaf ⟨number, n⟩ content :: trees) := by
  simp [Tree.ofNests, Tree.contents, Nest.line, Nest.nested, isTag_line hline, hrest, bind,
    Except.bind, pure, Except.pure, Line.place]

/-- An element with something inside it. -/
theorem ofNests_element (hline : e.IsLine content) {inner : List Nest} (hne : inner ≠ [])
    {innerTrees : List Tree} (hinner : Tree.ofNests s inner = .ok innerTrees)
    (hrest : Tree.ofNests s nests = .ok trees) :
    Tree.ofNests s (.mk ⟨n, content, number⟩ inner :: nests) =
      .ok (.opening ⟨number, n⟩ content :: innerTrees ++ .closing ⟨number, n⟩ content :: trees) := by
  simp [Tree.ofNests, Tree.contents, Nest.line, Nest.nested, isTag_line hline, hne, hinner, hrest,
    bind, Except.bind, pure, Except.pure, Line.place]

theorem emitAll_append (ts us : List Tree) :
    Tree.emitAll s (ts ++ us) = (do Tree.emitAll s ts; Tree.emitAll s us) := by
  induction ts with
  | nil => rfl
  | cons t ts ih => simp only [List.cons_append, Tree.emitAll, ih, bind_assoc]

/-! ## Writing the nodes -/

theorem prints_opening (he : e.IsStatic) (pad : Bool) (line : Nat) :
    Prints (emitOpening s e.tag pad line)
      (e.opening s.idSeparator.toList ++ if pad then [' '] else []) := by
  unfold emitOpening
  rw [Element.opening_tag he]
  exact (Prints.text _).seq (.space pad)

theorem prints_trailing (hs : s.delimiters = .standard) (he : e.IsStatic)
    (hne : e.trailing.isEmpty = false) (line : Nat) :
    Prints (emitTrailing s e.trailing line) e.trailingText := by
  have hstatement : inlineStatement? e.trailing = none := by
    unfold inlineStatement?
    rw [Text.after?_eq_none_iff.2]
    · rfl
    · rintro ⟨t, ht⟩
      exact he.statement t ht.symm
  have hcut : Text.cut? s.delimiters.opening e.trailing = none := by
    rw [hs]
    exact Text.cut?_eq_none_iff.2 he.trailing.opening
  unfold emitTrailing
  rw [hstatement, Element.trailingText, hne]
  exact .interpolated hcut true line

/-- The closing tag holds no delimiter. -/
theorem cut?_closing (hs : s.delimiters = .standard) (he : e.IsStatic) :
    Text.cut? s.delimiters.opening e.closing = none := by
  rw [hs, Text.cut?_eq_none_iff]
  have hempty : ¬ Delimiters.standard.opening <:+: [] := by decide
  intro hinfix
  have hbehind := (Text.infix_of_infix_append (s := []) (by decide) hinfix).resolve_left hempty
  have hname := (Text.infix_of_infix_append (s := []) (by decide) hbehind).resolve_left hempty
  exact (Text.infix_of_infix_append (by decide) hname).elim he.name.piece.opening hempty

theorem prints_leaf (hs : s.delimiters = .standard) (he : e.IsStatic) (hline : e.IsLine content)
    (place : Place) : Prints (Tree.emit s (.leaf place content))
      (Markup.html s.idSeparator.toList (.element e [])) := by
  have hparse : Tag.parse s.delimiters content = .ok (e.tag, e.trailing) := by
    rw [hs]
    exact Tag.parse_line he hline
  rw [emit_leaf hparse, Markup.html, Element.closing_tag]
  cases hempty : e.trailing.isEmpty with
  | true =>
    have h := (prints_opening (s := s) he false place.line).seq (.text e.closing)
    simpa using h
  | false =>
    have hclosing := Prints.interpolated (cut?_closing hs he) true place.line
    have h := (prints_opening (s := s) he true place.line).seq
      ((prints_trailing hs he hempty place.line).seq hclosing)
    simpa using h

theorem prints_opening_line (hs : s.delimiters = .standard) (he : e.IsStatic)
    (hline : e.IsLine content) (place : Place) : Prints (Tree.emit s (.opening place content))
      (e.opening s.idSeparator.toList ++ e.trailingText) := by
  have hparse : Tag.parse s.delimiters content = .ok (e.tag, e.trailing) := by
    rw [hs]
    exact Tag.parse_line he hline
  have hopening := prints_opening (s := s) he false place.line
  rw [if_neg Bool.false_ne_true, List.append_nil] at hopening
  rw [emit_opening hparse]
  refine hopening.seq ?_
  cases hempty : e.trailing.isEmpty with
  | true =>
    rw [Element.trailingText, hempty]
    exact .pure
  | false => exact prints_trailing hs he hempty place.line

theorem prints_closing_line (hs : s.delimiters = .standard) (he : e.IsStatic)
    (hline : e.IsLine content) (place : Place) :
    Prints (Tree.emit s (.closing place content)) e.closing := by
  have hparse : Tag.parse s.delimiters content = .ok (e.tag, e.trailing) := by
    rw [hs]
    exact Tag.parse_line he hline
  rw [emit_closing hparse, Element.closing_tag]
  exact .text e.closing

end Nodes

/-! ## Whole outlines -/

/-- The nested lines print the HTML of the markup. -/
def Draws (s : Settings) (ms : List Markup) (nests : List Nest) : Prop :=
  ∃ trees, Tree.ofNests s nests = .ok trees ∧
    Prints (Tree.emitAll s trees) (Markup.htmlOf s.idSeparator.toList ms)

namespace Draws

variable {s : Settings} {ms : List Markup} {n number : Nat} {nests : List Nest} {content : List Char}
  {e : Element}

theorem nil : Draws s [] [] := ⟨[], rfl, .pure⟩

theorem text (hs : s.delimiters = .standard) (htext : IsTextLine content) (h : Draws s ms nests) :
    Draws s (.text content :: ms) (.mk ⟨n, content, number⟩ [] :: nests) := by
  obtain ⟨trees, htrees, hprints⟩ := h
  have hcut : Text.cut? s.delimiters.opening content = none := by
    rw [hs]
    exact Text.cut?_eq_none_iff.2 htext.opening
  have hline : Prints (Tree.emit s (.text ⟨number, n⟩ content)) (content ++ [' ']) := by
    rw [Tree.emit]
    exact .interpolated hcut true number
  exact ⟨_, ofNests_text htext htrees, hline.seq hprints⟩

theorem leaf (hs : s.delimiters = .standard) (he : e.IsStatic) (hline : e.IsLine content)
    (h : Draws s ms nests) :
    Draws s (.element e [] :: ms) (.mk ⟨n, content, number⟩ [] :: nests) := by
  obtain ⟨trees, htrees, hprints⟩ := h
  exact ⟨_, ofNests_leaf hline htrees, (prints_leaf hs he hline _).seq hprints⟩

theorem element (hs : s.delimiters = .standard) (he : e.IsStatic) (hline : e.IsLine content)
    {m : Markup} {children : List Markup} {inner : List Nest} (hne : inner ≠ [])
    (hinner : Draws s (m :: children) inner) (h : Draws s ms nests) :
    Draws s (.element e (m :: children) :: ms) (.mk ⟨n, content, number⟩ inner :: nests) := by
  obtain ⟨innerTrees, hinnerTrees, hinnerPrints⟩ := hinner
  obtain ⟨trees, htrees, hprints⟩ := h
  have hclosing : Prints (Tree.emitAll s (.closing ⟨number, n⟩ content :: trees)) _ :=
    (prints_closing_line hs he hline _).seq hprints
  have hbehind := hinnerPrints.seq hclosing
  rw [← emitAll_append] at hbehind
  refine ⟨_, ofNests_element hline hne hinnerTrees htrees, ?_⟩
  have hall := (prints_opening_line hs he hline ⟨number, n⟩).seq hbehind
  rw [Markup.htmlOf, Markup.html]
  simpa [Tree.emitAll] using hall

end Draws

/-- Markup has as many lines at its level as it has parts. -/
theorem nests_ne_nil {m : Markup} {ms : List Markup} {plans : List Plan} (h : Sketches (m :: ms) plans)
    {n : Nat} {nests : List Nest} (hnests : Nested n plans nests) : nests ≠ [] := by
  cases h <;> cases hnests <;> exact List.cons_ne_nil _ _

/-- **Nested lines of markup print its HTML.** -/
theorem draws_sketch {s : Settings} (hs : s.delimiters = .standard) {ms : List Markup}
    {plans : List Plan} (h : Sketches ms plans) : ∀ {n : Nat} {nests : List Nest},
      Markup.AreStatic ms → Nested n plans nests → Draws s ms nests := by
  induction h with
  | nil =>
    intro n nests _ hnests
    cases hnests
    exact .nil
  | text _ ih =>
    intro n nests hms hnests
    cases hnests with
    | cons hinner hnests =>
      cases hinner
      exact .text hs hms.1 (ih hms.2 hnests)
  | @element e content children ms inner plans hline _ hchildren _ ihchildren ih =>
    intro n nests hms hnests
    obtain ⟨⟨he, hinside⟩, hms⟩ := hms
    cases hnests with
    | cons hinner hnests =>
      cases children with
      | nil =>
        cases hchildren
        cases hinner
        exact .leaf hs he hline (ih hms hnests)
      | cons m children =>
        exact .element hs he hline (nests_ne_nil hchildren hinner) (ihchildren hinside hinner)
          (ih hms hnests)

/-- **The outline of markup renders to its HTML.** The source is compiled, whatever its indentation is
made of, and in every environment the template renders to the HTML, whatever the data and the slots
are. -/
theorem render_markup (s : Settings) (hs : s.delimiters = .standard) {ms : List Markup}
    (hms : Markup.AreStatic ms) {plans : List Plan} (hplans : Sketches ms plans) {source : List Char}
    (hsource : Written s.strictIndentation (Plan.rowsOf 0 plans) source) (name : String) :
    ∃ t, (parse s name (String.ofList source)).1 = .ok [(baseName name, t)] ∧
      ∀ (e : Environment) (c : RenderContext),
        ((e.put (baseName name) t).render
            { c with main := some (baseName name), layout := none }).1 =
          .ok (String.ofList (Markup.htmlOf s.idSeparator.toList ms)) := by
  obtain ⟨ls, hls, hnested⟩ := nested_written hsource (fit_sketch hplans hms 0)
  obtain ⟨trees, htrees, hprints⟩ := draws_sketch hs hplans hms hnested
  obtain ⟨b, hb, hclosed, hopen⟩ := hprints {}
  obtain ⟨texts, hnodes, hjoin⟩ := Builder.nodes_of_closed hclosed
  refine ⟨_, parse_of_lines hls htrees hb name, fun e c => ?_⟩
  rw [Environment.render_literal (Environment.template_put e _ _) hnodes c, hjoin, hopen]
  rfl

/-! ## A list -/

/-- An element with classes, ids and attributes, two of which are called `class`. -/
def manyMarks : Element where
  name := "ul".toList
  classes := ["a".toList, "b".toList]
  ids := ["i".toList, "j".toList]
  attributes := [⟨"hidden".toList, none⟩, ⟨"class".toList, some "c=".toList⟩,
    ⟨"class".toList, some []⟩]

/-- Elements inside and next to one another, a line of text and text behind a tag. -/
def manyTags : List Markup := [
  .element manyMarks [.text "x \x7b".toList,
    .element { name := "li".toList, trailing := " y".toList } []],
  .element { name := "br".toList } []]

/-- An outline of the markup. -/
def manyRows : List Plan := [
  .mk "%ul.a#i.b#j(hidden class=\"c=\" class=\"\")".toList
    [.mk "x \x7b".toList [], .mk "%li y".toList []],
  .mk "%br".toList []]

/-- The outline as a source, indented with a tab and with spaces. -/
def manySource : List Char :=
  "%ul.a#i.b#j(hidden class=\"c=\" class=\"\")\n\tx \x7b\n  %li y\n%br".toList

theorem sketches_manyTags : Sketches manyTags manyRows :=
  .element ⟨".a#i.b#j".toList, _, .cls (.id (.cls (.id .nil))), .some _, rfl⟩ (by decide)
    (.text (.element ⟨[], _, .nil, .omitted, rfl⟩ (by decide) .nil .nil))
    (.element ⟨[], _, .nil, .omitted, rfl⟩ (by decide) .nil .nil)

theorem written_manySource : Written false (Plan.rowsOf 0 manyRows) manySource := by
  have hlines : ∃ source, source = manySource ∧ Written false (Plan.rowsOf 0 manyRows) source :=
    ⟨_, rfl, .line .none (.line (.tab .none) (.line (.spaces rfl .none) (.last .none)))⟩
  obtain ⟨source, rfl, h⟩ := hlines
  exact h

theorem isPiece_iff {s : List Char} : IsPiece s ↔
    '\n' ∉ s ∧ '\r' ∉ s ∧ Text.cut? Delimiters.standard.opening s = none := by
  rw [Text.cut?_eq_none_iff]
  exact ⟨fun h => ⟨h.feed, h.carriage, h.opening⟩, fun h => ⟨h.1, h.2.1, h.2.2⟩⟩

instance (s : List Char) : Decidable (IsPiece s) := decidable_of_iff _ isPiece_iff.symm

theorem isLabel_iff {s : List Char} : IsLabel s ↔
    IsPiece s ∧ s ≠ [] ∧ s.all (fun c => !Text.isSpace c && c ∉ ['.', '#', '(', '=']) = true ∧
      s.getLast? ≠ some '-' := by
  simp only [List.all_eq_true, Bool.and_eq_true, Bool.not_eq_true', decide_eq_true_eq]
  exact ⟨fun h => ⟨h.piece, h.ne_nil, h.chars, h.last⟩, fun h => ⟨h.1, h.2.1, h.2.2.1, h.2.2.2⟩⟩

instance (s : List Char) : Decidable (IsLabel s) := decidable_of_iff _ isLabel_iff.symm

theorem Attribute.isStatic_iff {a : Attribute} : a.IsStatic ↔
    IsPiece a.name ∧ a.name ≠ [] ∧ (a.name.all fun c => c ∉ [' ', ')', '=']) = true ∧
      ∀ v ∈ a.value, IsPiece v ∧ '"' ∉ v := by
  simp only [List.all_eq_true, decide_eq_true_eq, List.mem_cons, List.not_mem_nil, or_false, not_or]
  exact ⟨fun h => ⟨h.name, h.name_ne_nil, h.name_chars, h.value⟩,
    fun h => ⟨h.1, h.2.1, h.2.2.1, h.2.2.2⟩⟩

instance (a : Attribute) : Decidable a.IsStatic := decidable_of_iff _ Attribute.isStatic_iff.symm

theorem areStatic_manyTags : Markup.AreStatic manyTags := by
  have hmarks : manyMarks.IsStatic :=
    ⟨by decide, by decide, by decide, by decide, by decide, .inl rfl, fun _ => nofun⟩
  have hitem : Element.IsStatic { name := "li".toList, trailing := " y".toList } :=
    ⟨by decide, nofun, nofun, nofun, by decide, .inr ⟨_, rfl⟩, fun _ heq => nomatch heq⟩
  have hbreak : Element.IsStatic { name := "br".toList } :=
    ⟨by decide, nofun, nofun, nofun, by decide, .inl rfl, fun _ => nofun⟩
  have htext : IsTextLine "x \x7b".toList :=
    ⟨⟨_, _, rfl, rfl, by decide⟩, by decide, by decide, by decide, Text.cut?_eq_none_iff.1 rfl⟩
  exact ⟨⟨hmarks, htext, ⟨hitem, trivial⟩, trivial⟩, ⟨hbreak, trivial⟩, trivial⟩

/-- The outline renders to the HTML of the list. -/
theorem render_markup_manyTags :
    Markup.htmlOf "_".toList manyTags =
        ("<ul hidden class=\"a b c=\" class=\"\" id=\"i_j\">x \x7b <li>  y </li> </ul>".toList ++
          "<br></br>".toList) ∧
      ∃ t, (parse .standard "list" (String.ofList manySource)).1 = .ok [(baseName "list", t)] ∧
        ∀ (e : Environment) (c : RenderContext),
          ((e.put (baseName "list") t).render
              { c with main := some (baseName "list"), layout := none }).1 =
            .ok (String.ofList (Markup.htmlOf "_".toList manyTags)) :=
  ⟨rfl, render_markup .standard rfl areStatic_manyTags sketches_manyTags written_manySource "list"⟩

end Outline

end Stencil
