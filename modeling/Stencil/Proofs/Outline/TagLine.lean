import Stencil.Outline.Markup
import Stencil.Outline.Tag
import Stencil.Proofs.Template.Interpolation

/-!
# Reading tag lines

A tag line is taken apart into the tag and the text behind it. A quoted value is read to the first quote
that is in no interpolation.

* `Element.IsWritable d e` says which elements can be written as a tag line; values may hold
  interpolations with quotes in them.
* `Tag.parse_tagLine` reads the line of an element, and `Tag.parse_of_written` says what the tag is then.
* `Tag.parse_isRead` says what a tag is that was read from any line: every attribute is a name or a name
  with a quoted value, and the tag is executable if a value holds an interpolation.
-/

namespace Stencil.Outline

open Text (isSpace Leftmost)
open Interpolated (span Holds Splits)

/-- The tag of an element. -/
def Element.tag (e : Element) : Tag where
  name := e.name
  classes := e.classes
  ids := e.ids
  attributes := e.attributes.map Attribute.text

/-! ## Elements that can be written -/

/-- The text can be a part of the compact form. -/
structure IsSegment (s : List Char) : Prop where
  ne_nil : s ≠ []
  chars : ∀ c ∈ s, isSpace c = false ∧ c ∉ ['.', '#', '(', '=']
  last : s.getLast? ≠ some '-'

/-- The text can be a quoted value: all its quotes are in interpolations, and none of these is left
open. -/
def IsQuotable (d : Delimiters) (v : List Char) : Prop :=
  ∃ i, Splits d v i ∧ (∀ p ∈ i.parts, '"' ∉ p.1) ∧ '"' ∉ i.rest ∧ ¬ d.opening <:+: i.rest

/-- The attribute can be written between parentheses. -/
structure Attribute.IsWritable (d : Delimiters) (a : Attribute) : Prop where
  name_ne_nil : a.name ≠ []
  name_chars : ∀ c ∈ a.name, c ≠ ' ' ∧ c ≠ ')' ∧ c ≠ '='
  value : ∀ v ∈ a.value, IsQuotable d v

/-- The element can be written as a tag line. -/
structure Element.IsWritable (d : Delimiters) (e : Element) : Prop where
  name : IsSegment e.name
  classes : ∀ c ∈ e.classes, IsSegment c
  ids : ∀ i ∈ e.ids, IsSegment i
  attributes : ∀ a ∈ e.attributes, a.IsWritable d

/-- The text ends the compact form: it is empty, or starts with white space, an equals sign or a dash
that ends it. -/
def EndsCompact (s : List Char) : Prop :=
  s = [] ∨ ∃ c t, s = c :: t ∧ (isSpace c = true ∨ c = '=' ∨ c = '-' ∧ Tag.dashEnds t = true)

theorem isSegment_iff {s : List Char} : IsSegment s ↔
    s ≠ [] ∧ (s.all fun c => !isSpace c && c ∉ ['.', '#', '(', '=']) = true ∧
      s.getLast? ≠ some '-' := by
  simp only [List.all_eq_true, Bool.and_eq_true, Bool.not_eq_true', decide_eq_true_eq]
  exact ⟨fun h => ⟨h.ne_nil, h.chars, h.last⟩, fun h => ⟨h.1, h.2.1, h.2.2⟩⟩

instance (s : List Char) : Decidable (IsSegment s) := decidable_of_iff _ isSegment_iff.symm

theorem nameChars_iff {s : List Char} :
    (∀ c ∈ s, c ≠ ' ' ∧ c ≠ ')' ∧ c ≠ '=') ↔ (s.all fun c => c ∉ [' ', ')', '=']) = true := by
  simp

/-- Whether a value holds an interpolation. -/
def Attribute.isExecutable (d : Delimiters) (a : Attribute) : Bool :=
  a.value.any fun v => Holds d v

theorem Attribute.isExecutable_iff {d : Delimiters} {a : Attribute} :
    a.isExecutable d = true ↔ ∃ v, a.value = some v ∧ Holds d v := by
  simp [isExecutable, Option.any_eq_true]

namespace Tag

variable {d : Delimiters} {content : String} {s rest : List Char}

/-! ## The compact form -/

section Compact

variable {segment : Segment}

/-- A dash inside a segment does not end the compact form. -/
theorem dashEnds_append {c : Char} (hc : isSpace c = false ∧ c ∉ ['.', '#', '(', '=']) :
    dashEnds (c :: s) = false := by
  have hne : c ≠ '=' := fun heq => hc.2 (by simp [heq])
  simp [dashEnds, hc.1, hne]

/-- A segment is read to its end. -/
theorem readSegments_segment (t : Tag) : ∀ value : List Char,
    (∀ c ∈ s, isSpace c = false ∧ c ∉ ['.', '#', '(', '=']) → s.getLast? ≠ some '-' →
      readSegments d content t segment value (s ++ rest) =
        readSegments d content t segment (s.reverse ++ value) rest := by
  induction s with
  | nil => exact fun _ _ _ => rfl
  | cons c s ih =>
    intro value hchars hlast
    rw [List.forall_mem_cons] at hchars
    obtain ⟨⟨hspace, hc⟩, hs⟩ := hchars
    have hdash : (c = '-' && dashEnds (s ++ rest)) = false := by
      cases s with
      | nil =>
        have hne : c ≠ '-' := fun heq => hlast (by simp [heq])
        simp [hne]
      | cons b s =>
        rw [List.cons_append, dashEnds_append (hs b List.mem_cons_self), Bool.and_false]
    have hrest : s.getLast? ≠ some '-' := by
      cases s with
      | nil => simp
      | cons b s => rwa [List.getLast?_cons_cons] at hlast
    simp only [List.mem_cons, List.not_mem_nil, or_false, not_or] at hc
    rw [List.cons_append, readSegments]
    simp only [hc, hspace, hdash, if_false, decide_false, Bool.or_false, Bool.false_eq_true]
    rw [ih _ hs hrest, List.reverse_cons, List.append_assoc, List.singleton_append]

theorem readSegments_class (t : Tag) (value : List Char) :
    readSegments d content t segment value ('.' :: s) =
      readSegments d content (t.add segment value.reverse) .cls [] s := rfl

theorem readSegments_id (t : Tag) (value : List Char) :
    readSegments d content t segment value ('#' :: s) =
      readSegments d content (t.add segment value.reverse) .id [] s := rfl

theorem readSegments_parenthesis (t : Tag) (value : List Char) :
    readSegments d content t segment value ('(' :: s) =
      readAttributes d content (t.add segment value.reverse) [] s := rfl

/-- The tag once a segment has been read. -/
theorem add_segment {t : Tag} {label : List Char} (h : IsSegment label) :
    t.add .cls label = { t with classes := t.classes ++ [label] } ∧
      t.add .id label = { t with ids := t.ids ++ [label] } ∧
        t.add .name label = { t with name := label } := by
  have hne : label.isEmpty = false := by simpa using h.ne_nil
  simp [add, hne]

variable (d content) in
/-- Classes and ids are read in their order. -/
theorem readSegments_compact {cs is : List (List Char)} (h : Compact cs is s) :
    (∀ c ∈ cs, IsSegment c) → (∀ i ∈ is, IsSegment i) →
      ∀ (t : Tag) (segment : Segment) (value : List Char), ∃ t' segment' value',
        (∀ rest, readSegments d content t segment value (s ++ rest) =
          readSegments d content t' segment' value' rest) ∧
        t'.add segment' value'.reverse =
          { t.add segment value.reverse with
            classes := (t.add segment value.reverse).classes ++ cs
            ids := (t.add segment value.reverse).ids ++ is } := by
  induction h with
  | nil =>
    intro _ _ t segment value
    exact ⟨t, segment, value, fun _ => rfl, by simp⟩
  | @cls c cs is s _ ih =>
    intro hcs his t segment value
    rw [List.forall_mem_cons] at hcs
    obtain ⟨hc, hcs⟩ := hcs
    obtain ⟨t', segment', value', hread, hadd⟩ :=
      ih hcs his (t.add segment value.reverse) .cls c.reverse
    refine ⟨t', segment', value', fun rest => ?_, ?_⟩
    · rw [List.cons_append, List.append_assoc, readSegments_class,
        readSegments_segment _ _ hc.chars hc.last, List.append_nil, hread]
    · rw [hadd, List.reverse_reverse, (add_segment hc).1]
      simp
  | @id i cs is s _ ih =>
    intro hcs his t segment value
    rw [List.forall_mem_cons] at his
    obtain ⟨hi, his⟩ := his
    obtain ⟨t', segment', value', hread, hadd⟩ :=
      ih hcs his (t.add segment value.reverse) .id i.reverse
    refine ⟨t', segment', value', fun rest => ?_, ?_⟩
    · rw [List.cons_append, List.append_assoc, readSegments_id,
        readSegments_segment _ _ hi.chars hi.last, List.append_nil, hread]
    · rw [hadd, List.reverse_reverse, (add_segment hi).2.1]
      simp

/-- The text behind a tag is left as it is. -/
theorem readSegments_trailing (t : Tag) (value : List Char) (h : EndsCompact s) :
    readSegments d content t segment value s = .ok (t.add segment value.reverse, s) := by
  rcases h with rfl | ⟨c, u, rfl, hc⟩
  · rfl
  · have hne : c ≠ '.' ∧ c ≠ '#' ∧ c ≠ '(' := by
      rcases hc with hspace | rfl | ⟨rfl, -⟩
      · refine ⟨?_, ?_, ?_⟩ <;> (rintro rfl; cases hspace)
      · decide
      · decide
    have hends : (c = '=' || isSpace c || (c = '-' && dashEnds u)) = true := by
      rcases hc with hspace | rfl | ⟨rfl, hdash⟩
      · simp [hspace]
      · simp
      · simp [hdash]
    rw [readSegments]
    simp only [hne, hends, if_false, if_true]
    rfl

end Compact

/-! ## Quoted values -/

section Values

variable {statement v : List Char}

theorem interpolationLength?_eq_none (h : ¬ d.opening <+: s) : interpolationLength? d s = none := by
  unfold interpolationLength?
  rw [Text.after?_eq_none_iff.2 h]
  rfl

theorem interpolationLength?_span
    (h : Leftmost d.closing statement (statement ++ (d.closing ++ rest))) :
    interpolationLength? d (span d statement ++ rest) = some (span d statement).length := by
  unfold interpolationLength?
  rw [Interpolated.span_append, Text.after?_eq_some_iff.2 rfl, Option.bind_eq_bind, Option.bind_some,
    Interpolated.cut?_closing h]
  simp only [Option.bind_eq_bind, Option.bind_some, span, List.length_append, Option.pure_def,
    Option.some.injEq]
  omega

theorem interpolationLength?_ne_none (statement s : List Char) :
    interpolationLength? d (span d statement ++ s) ≠ none := by
  have hcut : Text.cut? d.closing (statement ++ (d.closing ++ s)) ≠ none := by
    rw [ne_eq, Text.cut?_eq_none_iff, Classical.not_not]
    exact ⟨statement, s, by rw [List.append_assoc]⟩
  obtain ⟨p, hp⟩ := Option.ne_none_iff_exists'.1 hcut
  simp [interpolationLength?, Interpolated.span_append, Text.after?_eq_some_iff.2 rfl, hp]

/-- What starts with an interpolation ends in what is behind it. -/
theorem exists_of_interpolationLength? {n : Nat} (h : interpolationLength? d s = some n) :
    ∃ statement rest, s = span d statement ++ rest ∧
      Leftmost d.closing statement (statement ++ (d.closing ++ rest)) := by
  unfold interpolationLength? at h
  simp only [Option.bind_eq_bind, Option.bind_eq_some_iff] at h
  obtain ⟨t, hafter, ⟨statement, rest⟩, hcut, -⟩ := h
  obtain rfl := Text.after?_eq_some_iff.1 hafter
  obtain ⟨rfl, hfirst⟩ := Text.cut?_eq_some_iff.1 hcut
  exact ⟨statement, rest, (Interpolated.span_append _ _).symm, hfirst⟩

/-- What is still to come of an interpolation is taken over. -/
theorem readValue_taken (t : Tag) : ∀ u value : List Char,
    readValue d content t value u.length (u ++ s) =
      readValue d content t (u.reverse ++ value) 0 s
  | [], _ => rfl
  | c :: u, value => by
    rw [List.cons_append, List.length_cons, readValue, readValue_taken t u, List.reverse_cons,
      List.append_assoc]
    rfl

/-- An interpolation is taken over, whatever is in it. -/
theorem readValue_span (t : Tag) (value : List Char)
    (h : Leftmost d.closing statement (statement ++ (d.closing ++ rest))) :
    readValue d content t value 0 (span d statement ++ rest) =
      readValue d content { t with executable := true } ((span d statement).reverse ++ value) 0
        rest := by
  have hlength := interpolationLength?_span h
  obtain ⟨c, u, hu⟩ : ∃ c u, span d statement = c :: u :=
    List.exists_cons_of_ne_nil fun hnil => d.opening_ne_nil (List.append_eq_nil_iff.1 hnil).1
  rw [hu] at hlength ⊢
  rw [List.cons_append] at hlength ⊢
  rw [readValue]
  simp only [hlength, List.length_cons, Nat.add_sub_cancel]
  rw [readValue_taken, List.reverse_cons, List.append_assoc]
  rfl

/-- Text in front of an interpolation, or of the closing quote, is read to its end. -/
theorem readValue_text (t : Tag) : ∀ value : List Char, '"' ∉ s → Leftmost d.opening s (s ++ rest) →
    readValue d content t value 0 (s ++ rest) = readValue d content t (s.reverse ++ value) 0 rest := by
  induction s with
  | nil => exact fun _ _ _ => rfl
  | cons c s ih =>
    intro value hquote hfirst
    rw [List.mem_cons, not_or] at hquote
    have hnone : interpolationLength? d (c :: (s ++ rest)) = none :=
      interpolationLength?_eq_none hfirst.not_prefix
    rw [List.cons_append, readValue]
    simp only [hnone, Ne.symm hquote.1, if_false]
    rw [ih _ hquote.2 hfirst.tail, List.reverse_cons, List.append_assoc]
    rfl

/-- A closing quote ends the value. -/
theorem readValue_quote (hd : '"' ∉ d.opening) (t : Tag) (value : List Char) :
    readValue d content t value 0 ('"' :: s) =
      readAttributes d content (t.addAttribute (value.reverse ++ ['"'])) [] s := by
  have hnone : interpolationLength? d ('"' :: s) = none := by
    apply interpolationLength?_eq_none
    intro hprefix
    have hnil := Text.prefix_of_prefix_append (s := []) hd hprefix
    exact d.opening_ne_nil (List.prefix_nil.1 hnil)
  rw [readValue]
  simp [hnone]

/-- **A value is read to its closing quote**, over the interpolations in it. -/
theorem readValue_quoted (hd : '"' ∉ d.opening) (hv : IsQuotable d v) (t : Tag) (value : List Char) :
    readValue d content t value 0 (v ++ '"' :: rest) =
      readAttributes d content ({ t with executable := t.executable || Holds d v }.addAttribute
        (value.reverse ++ (v ++ ['"']))) [] rest := by
  obtain ⟨i, hsplits, htexts, hrest, hclosed⟩ := hv
  induction hsplits generalizing t value with
  | @literal s hs =>
    have hquote : '"' ∉ s := hrest
    have hfirst : Leftmost d.opening s (s ++ '"' :: rest) := Text.leftmost_of_not_infix hd hclosed
    rw [readValue_text t value hquote hfirst, readValue_quote hd]
    simp [hs]
  | @lead before statement s i hopening hclosing _ ih =>
    obtain ⟨hbefore, htexts⟩ := List.forall_mem_cons.1 htexts
    have hholds : Holds d (before ++ (span d statement ++ s)) := ⟨statement, before, s, by simp⟩
    have hopening' : Leftmost d.opening before (before ++ (span d statement ++ (s ++ '"' :: rest))) := by
      rw [Interpolated.span_append, Text.leftmost_append_iff] at hopening ⊢
      exact hopening
    have hclosing' : Leftmost d.closing statement (statement ++ (d.closing ++ (s ++ '"' :: rest))) :=
      Text.leftmost_append_iff.2 (Text.leftmost_append_iff.1 hclosing)
    rw [List.append_assoc, List.append_assoc, readValue_text t value hbefore hopening',
      readValue_span t _ hclosing', ih _ _ htexts hrest hclosed]
    simp [hholds]

end Values

/-! ## Attributes -/

section Attributes

/-- The name of an attribute is read to its end. -/
theorem readAttributes_name (t : Tag) : ∀ value : List Char,
    (∀ c ∈ s, c ≠ ' ' ∧ c ≠ ')' ∧ c ≠ '=') →
      readAttributes d content t value (s ++ rest) =
        readAttributes d content t (s.reverse ++ value) rest := by
  induction s with
  | nil => exact fun _ _ => rfl
  | cons c s ih =>
    intro value hs
    rw [List.forall_mem_cons] at hs
    obtain ⟨⟨hspace, hclose, hequals⟩, hs⟩ := hs
    rw [List.cons_append, readAttributes]
    · simp only [hspace, hclose, hequals, if_false]
      rw [ih _ hs, List.reverse_cons, List.append_assoc, List.singleton_append]
    · exact fun _ heq _ => hequals heq

theorem readAttributes_close (t : Tag) (value : List Char) :
    readAttributes d content t value (')' :: s) = .ok (t.addAttribute value.reverse, s) := by
  rw [readAttributes]
  · rfl
  · exact fun _ heq _ => nomatch heq

theorem readAttributes_space (t : Tag) (value : List Char) :
    readAttributes d content t value (' ' :: s) =
      readAttributes d content (t.addAttribute value.reverse) [] s := by
  rw [readAttributes]
  · rfl
  · exact fun _ heq _ => nomatch heq

variable (content) in
/-- An attribute is read to its end. -/
theorem readAttributes_attribute (hd : '"' ∉ d.opening) {a : Attribute} (ha : a.IsWritable d)
    (t : Tag) : ∃ t' value, (∀ rest, readAttributes d content t [] (a.text ++ rest) =
        readAttributes d content t' value rest) ∧
      t'.addAttribute value.reverse =
        { t with executable := t.executable || a.isExecutable d }.addAttribute a.text := by
  obtain ⟨name, value⟩ := a
  cases value with
  | none =>
    refine ⟨t, name.reverse, fun rest => ?_, by simp [Attribute.text, Attribute.isExecutable]⟩
    rw [Attribute.text, List.append_nil, readAttributes_name t [] ha.name_chars, List.append_nil]
  | some v =>
    refine ⟨{ t with executable := t.executable || Holds d v }.addAttribute
      (Attribute.text ⟨name, some v⟩), [], fun rest => ?_, by simp [addAttribute, Attribute.isExecutable]⟩
    rw [Attribute.text, List.append_assoc, readAttributes_name t [] ha.name_chars, List.append_nil,
      List.cons_append, List.cons_append, readAttributes, List.append_assoc, List.singleton_append,
      readValue_quoted hd (ha.value v rfl)]
    simp

theorem addAttribute_text {a : Attribute} (ha : a.IsWritable d) (t : Tag) :
    t.addAttribute a.text = { t with attributes := t.attributes ++ [a.text] } := by
  have hne : a.text.isEmpty = false := by simp [Attribute.text, ha.name_ne_nil]
  simp [addAttribute, hne]

/-- The attributes are read up to the closing parenthesis. -/
theorem readAttributes_attributes (hd : '"' ∉ d.opening) {as : List Attribute}
    (has : ∀ a ∈ as, a.IsWritable d) : ∀ t : Tag,
      readAttributes d content t []
          (List.intercalate [' '] (as.map Attribute.text) ++ ')' :: rest) =
        .ok ({ t with
          attributes := t.attributes ++ as.map Attribute.text
          executable := t.executable || as.any (·.isExecutable d) }, rest) := by
  induction as with
  | nil =>
    intro t
    rw [List.map_nil, List.intercalate_nil, List.nil_append, readAttributes_close]
    simp [addAttribute]
  | cons a as ih =>
    intro t
    rw [List.forall_mem_cons] at has
    obtain ⟨t', value, hread, hadd⟩ := readAttributes_attribute content hd has.1 t
    cases as with
    | nil =>
      rw [List.map_singleton, List.intercalate_singleton, hread, readAttributes_close, hadd,
        addAttribute_text has.1]
      simp
    | cons b as =>
      rw [List.map_cons, List.map_cons, List.intercalate_cons_cons, ← List.map_cons,
        List.append_assoc, List.append_assoc, hread, List.singleton_append, readAttributes_space, hadd,
        addAttribute_text has.1, ih has.2]
      simp [Bool.or_assoc]

end Attributes

/-! ## Lines -/

theorem parse_percent (d : Delimiters) (s : List Char) :
    Tag.parse d ('%' :: s) = readSegments d (String.ofList ('%' :: s)) {} .name [] s := rfl

/-- **The line of an element is taken apart** into its tag and the text behind it. -/
theorem parse_tagLine (hd : '"' ∉ d.opening) {e : Element} (he : e.IsWritable d)
    {compact brackets : List Char} (hcompact : Compact e.classes e.ids compact)
    (hbrackets : Bracketed e.attributes brackets) (htrailing : brackets = [] → EndsCompact e.trailing) :
    Tag.parse d ('%' :: (e.name ++ (compact ++ (brackets ++ e.trailing)))) =
      .ok ({ e.tag with executable := e.attributes.any (·.isExecutable d) }, e.trailing) := by
  have hname : (({} : Tag).add .name e.name) = { name := e.name } := (add_segment he.name).2.2
  rw [parse_percent]
  generalize String.ofList ('%' :: (e.name ++ (compact ++ (brackets ++ e.trailing)))) = line
  obtain ⟨t, segment, value, hread, hadd⟩ :
      ∃ t segment value, (∀ rest, readSegments d line {} .name e.name.reverse
        (compact ++ rest) = readSegments d line t segment value rest) ∧
      t.add segment value.reverse = { name := e.name, classes := e.classes, ids := e.ids } := by
    have h := readSegments_compact d line hcompact he.classes he.ids {} .name e.name.reverse
    simpa only [List.reverse_reverse, hname, List.nil_append] using h
  rw [readSegments_segment _ _ he.name.chars he.name.last, List.append_nil, hread]
  generalize hattributes : e.attributes = attributes at hbrackets
  cases hbrackets with
  | omitted =>
    rw [List.nil_append, readSegments_trailing t value (htrailing rfl), hadd, Element.tag,
      hattributes]
    rfl
  | some =>
    have hwritable : ∀ a ∈ attributes, a.IsWritable d := hattributes ▸ he.attributes
    rw [List.cons_append, List.append_assoc, List.singleton_append, readSegments_parenthesis, hadd,
      readAttributes_attributes hd hwritable, Element.tag, hattributes]
    rfl

/-- **Reading a tag line undoes writing it.** The line of an element gives back its name, its classes,
ids and attributes in their order and the text behind the tag, for all delimiters without a quote in the
left one. The tag is executable exactly if a value holds an interpolation. -/
theorem parse_of_written (hd : '"' ∉ d.opening) {e : Element} (he : e.IsWritable d)
    {compact brackets : List Char} (hcompact : Compact e.classes e.ids compact)
    (hbrackets : Bracketed e.attributes brackets) (htrailing : brackets = [] → EndsCompact e.trailing) :
    ∃ t, Tag.parse d ('%' :: (e.name ++ (compact ++ (brackets ++ e.trailing)))) =
        .ok (t, e.trailing) ∧
      t.name = e.name ∧ t.classes = e.classes ∧ t.ids = e.ids ∧
      t.attributes = e.attributes.map Attribute.text ∧
      (t.executable = true ↔ ∃ a ∈ e.attributes, ∃ v, a.value = some v ∧ Holds d v) := by
  refine ⟨_, parse_tagLine hd he hcompact hbrackets htrailing, rfl, rfl, rfl, rfl, ?_⟩
  simp only [List.any_eq_true, Attribute.isExecutable_iff]

/-- Angle brackets as delimiters. -/
def angled : Delimiters := ⟨"<<", ">>", by decide, by decide, by decide⟩

/-- A link with a quote and a parenthesis in the statement of a value. -/
def searchLink : Element where
  name := "my-link".toList
  classes := ["a".toList, "is-on".toList]
  ids := ["x".toList, "y".toList]
  attributes := [⟨"href".toList, some "/<< f \")\" >>)/".toList⟩, ⟨"hidden".toList, none⟩]
  trailing := "-(.b".toList

theorem isWritable_searchLink : searchLink.IsWritable angled := by
  have hvalue : IsQuotable angled "/<< f \")\" >>)/".toList := by
    have hopen : ¬ angled.opening <:+: ")/".toList := Text.cut?_eq_none_iff.1 rfl
    have hsplits : Splits angled ("/".toList ++ (span angled " f \")\" ".toList ++ ")/".toList)) _ :=
      .lead (Text.leftmost_of_cut? rfl) (Text.leftmost_of_cut? rfl)
        (.literal (Interpolated.not_holds_of_not_infix hopen))
    exact ⟨_, hsplits, by decide, by decide, hopen⟩
  have hhref : Attribute.IsWritable angled ⟨"href".toList, some "/<< f \")\" >>)/".toList⟩ :=
    ⟨by decide, nameChars_iff.2 (by decide), fun v hv => Option.mem_some_iff.1 hv ▸ hvalue⟩
  have hhidden : Attribute.IsWritable angled ⟨"hidden".toList, none⟩ :=
    ⟨by decide, nameChars_iff.2 (by decide), fun _ hv => absurd hv (Option.not_mem_none _)⟩
  exact ⟨by decide, by decide, by decide,
    List.forall_mem_cons.2 ⟨hhref, List.forall_mem_cons.2 ⟨hhidden, List.forall_mem_nil _⟩⟩⟩

/-- The line of the link is read. -/
theorem parse_of_written_searchLink :
    ∃ t, Tag.parse angled "%my-link#x.a#y.is-on(href=\"/<< f \")\" >>)/\" hidden)-(.b".toList =
        .ok (t, "-(.b".toList) ∧
      t.name = searchLink.name ∧ t.classes = searchLink.classes ∧ t.ids = searchLink.ids ∧
      t.attributes = searchLink.attributes.map Attribute.text ∧
      (t.executable = true ↔
        ∃ a ∈ searchLink.attributes, ∃ v, a.value = some v ∧ Holds angled v) := by
  have hcompact : Compact searchLink.classes searchLink.ids "#x.a#y.is-on".toList :=
    .id (.cls (.id (.cls .nil)))
  have h := parse_of_written (by decide) isWritable_searchLink hcompact (.some _)
    fun hnil => absurd hnil (List.cons_ne_nil _ _)
  have hline : '%' :: (searchLink.name ++ ("#x.a#y.is-on".toList ++
      ('(' :: (List.intercalate [' '] (searchLink.attributes.map Attribute.text) ++ [')']) ++
        searchLink.trailing))) =
      "%my-link#x.a#y.is-on(href=\"/<< f \")\" >>)/\" hidden)-(.b".toList := rfl
  rwa [hline] at h

/-! ## Tags that were read -/

/-- The tag has these attributes, each a name or a name with a quoted value, and is executable if one
of the values holds an interpolation. -/
structure IsRead (d : Delimiters) (as : List Attribute) (t : Tag) : Prop where
  attributes : t.attributes = as.map Attribute.text
  names : ∀ a ∈ as, '=' ∉ a.name
  executable : t.executable = as.any (·.isExecutable d)

theorem IsRead.concat {as : List Attribute} {t : Tag} (h : IsRead d as t) {a : Attribute}
    (ha : '=' ∉ a.name) (hne : a.text ≠ []) :
    IsRead d (as ++ [a]) ({ t with executable := t.executable || a.isExecutable d }.addAttribute
      a.text) := by
  have hempty : a.text.isEmpty = false := by simpa using hne
  refine ⟨?_, ?_, ?_⟩
  · simp [addAttribute, hempty, h.attributes]
  · intro b hb
    rcases List.mem_append.1 hb with hb | hb
    · exact h.names b hb
    · rw [List.mem_singleton.1 hb]
      exact ha
  · simp [addAttribute, hempty, h.executable]

/-- A name without a value is an attribute unless it is empty. -/
theorem IsRead.name {as : List Attribute} {t : Tag} (h : IsRead d as t) {value : List Char}
    (hvalue : '=' ∉ value) : ∃ as', IsRead d as' (t.addAttribute value.reverse) := by
  cases hempty : value.reverse.isEmpty with
  | true => exact ⟨as, by simpa [addAttribute, hempty] using h⟩
  | false =>
    have hname : '=' ∉ value.reverse := by simpa using hvalue
    have hne : Attribute.text ⟨value.reverse, none⟩ ≠ [] := by simpa [Attribute.text] using hempty
    have hconcat := h.concat (a := ⟨value.reverse, none⟩) hname hne
    exact ⟨_, by simpa [Attribute.text, Attribute.isExecutable] using hconcat⟩

/-- A text holds no interpolation at its first character if none starts there, not even one that ends
behind the text. -/
theorem holds_cons_iff {c : Char} {v : List Char}
    (h : interpolationLength? d (c :: (v ++ rest)) = none) : Holds d (c :: v) ↔ Holds d v := by
  constructor
  · rintro ⟨statement, hspan⟩
    rcases List.infix_cons_iff.1 hspan with ⟨u, hu⟩ | hinfix
    · rw [← List.cons_append, ← hu, List.append_assoc] at h
      exact absurd h (interpolationLength?_ne_none _ _)
    · exact ⟨statement, hinfix⟩
  · rintro ⟨statement, hspan⟩
    exact ⟨statement, hspan.trans (List.suffix_cons c v).isInfix⟩

/-- A value that is read has a closing quote, which the interpolations in the value go around. -/
theorem exists_value {r : Tag × List Char} : ∀ {s : List Char} {t : Tag} {value : List Char},
    readValue d content t value 0 s = .ok r → ∃ v rest, s = v ++ '"' :: rest ∧
      readAttributes d content ({ t with executable := t.executable || Holds d v }.addAttribute
        (value.reverse ++ (v ++ ['"']))) [] rest = .ok r
  | [], _, _, h => by
    rw [readValue] at h
    cases h
  | c :: s, t, value, h => by
    cases hlength : interpolationLength? d (c :: s) with
    | some n =>
      obtain ⟨statement, tail, hs, hclosing⟩ := exists_of_interpolationLength? hlength
      have hlt : tail.length < (c :: s).length := by
        have hpos := List.length_pos_iff.2 d.opening_ne_nil
        rw [hs]
        simp only [span, List.length_append]
        omega
      rw [hs, readValue_span t value hclosing] at h
      obtain ⟨v, rest, rfl, hread⟩ := exists_value h
      have hholds : Holds d (span d statement ++ v) := ⟨statement, [], v, rfl⟩
      refine ⟨span d statement ++ v, rest, by rw [hs, List.append_assoc], ?_⟩
      simpa [hholds, List.append_assoc] using hread
    | none =>
      rw [readValue] at h
      simp only [hlength] at h
      split at h
      · next hc =>
        rw [hc] at h ⊢
        exact ⟨[], s, rfl, by simpa [Interpolated.not_holds_nil] using h⟩
      · obtain ⟨v, rest, rfl, hread⟩ := exists_value h
        refine ⟨c :: v, rest, rfl, ?_⟩
        simpa [holds_cons_iff hlength] using hread
  termination_by s => s.length
  decreasing_by
    · exact Nat.lt_succ_self _
    · exact hlt

theorem readAttributes_isRead {t' : Tag} {trailing : List Char} : ∀ {s : List Char} {t : Tag}
    {value : List Char} {as : List Attribute}, IsRead d as t → '=' ∉ value →
      readAttributes d content t value s = .ok (t', trailing) → ∃ as', IsRead d as' t'
  | [], _, _, _, _, _, h => by
    rw [readAttributes] at h
    cases h
  | c :: s, t, value, as, ht, hvalue, h => by
    by_cases hquoted : ∃ u, c = '=' ∧ s = '"' :: u
    · obtain ⟨u, rfl, rfl⟩ := hquoted
      rw [readAttributes] at h
      obtain ⟨v, rest, rfl, hread⟩ := exists_value h
      have hname : '=' ∉ value.reverse := by simpa using hvalue
      have hconcat := ht.concat (a := ⟨value.reverse, some v⟩) hname (by simp [Attribute.text])
      have hread' : readAttributes d content
          ({ t with
            executable := t.executable || Attribute.isExecutable d ⟨value.reverse, some v⟩ }.addAttribute
            (Attribute.text ⟨value.reverse, some v⟩)) [] rest = .ok (t', trailing) := by
        simpa [Attribute.text, Attribute.isExecutable] using hread
      exact readAttributes_isRead hconcat List.not_mem_nil hread'
    · rw [readAttributes] at h
      · split at h
        · cases h
          exact ht.name hvalue
        · split at h
          · obtain ⟨as', hname⟩ := ht.name hvalue
            exact readAttributes_isRead hname List.not_mem_nil h
          · split at h
            · cases h
            · next hc =>
              exact readAttributes_isRead ht (by simp [Ne.symm hc, hvalue]) h
      · exact fun u hc hs => hquoted ⟨u, hc, hs⟩
  termination_by s => s.length

theorem IsRead.add {as : List Attribute} {t : Tag} (h : IsRead d as t) (segment : Segment)
    (value : List Char) : IsRead d as (t.add segment value) := by
  unfold Tag.add
  split
  · exact h
  · cases segment <;> exact ⟨h.attributes, h.names, h.executable⟩

theorem readSegments_isRead {t' : Tag} {trailing : List Char} : ∀ {s : List Char} {t : Tag}
    {segment : Segment} {value : List Char} {as : List Attribute}, IsRead d as t →
      readSegments d content t segment value s = .ok (t', trailing) → ∃ as', IsRead d as' t' := by
  intro s
  induction s with
  | nil =>
    intro t segment value as ht h
    cases h
    exact ⟨as, ht.add segment _⟩
  | cons c s ih =>
    intro t segment value as ht h
    have hdone := ht.add segment value.reverse
    rw [readSegments] at h
    split at h
    · exact ih hdone h
    · split at h
      · exact ih hdone h
      · split at h
        · exact readAttributes_isRead hdone List.not_mem_nil h
        · split at h
          · cases h
            exact ⟨as, hdone⟩
          · exact ih ht h

/-- **A tag that was read** has attributes of two forms, and is executable if a value holds an
interpolation. -/
theorem parse_isRead {content trailing : List Char} {t : Tag}
    (h : Tag.parse d content = .ok (t, trailing)) : ∃ as, IsRead d as t := by
  have hnew : IsRead d [] {} := ⟨rfl, List.forall_mem_nil _, rfl⟩
  unfold Tag.parse at h
  dsimp only at h
  split at h
  · exact readSegments_isRead hnew h
  · exact readSegments_isRead hnew h
  · exact readSegments_isRead hnew h
  · cases h

end Tag

end Stencil.Outline
