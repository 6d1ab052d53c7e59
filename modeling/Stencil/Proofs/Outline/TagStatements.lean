import Mathlib
import Stencil.Proofs.Outline.Tag
import Stencil.Proofs.Template.Marks

/-!
# Statements in tag lines

Statements are meant for the values of attributes and the text behind a tag. But a tag with a statement in
a value is split as a whole, and so is a closing tag with text in front of it.

* `Tag.valued` is the opening tag with the statements of its values and no others, `Tag.found` with those
  that are written.
* `Tag.found_eq_iff` says when these are the same.
* `exists_writesTag` says what is written for a tag line, with the conditions under which it is as meant.
-/

namespace Stencil.Outline

open Build (Puts)
open Interpolated (Holds literal scan)
open Text (Leftmost)

/-! ## The statements of values -/

/-- An attribute with the statements of its value, in front of which the text `front` is placed. -/
def Attribute.statements (d : Delimiters) (front : List Char) (a : Attribute) : Interpolated :=
  match a.value with
  | none => literal (' ' :: a.name)
  | some v => literal (' ' :: (a.name ++ '=' :: '"' :: front)) ++ scan d v ++ literal ['"']

/-- The statements in the value of an attribute. -/
def Attribute.inValue (d : Delimiters) (a : Attribute) : List (List Char) :=
  a.value.elim [] fun v => (scan d v).parts.map Prod.snd

namespace Tag

variable {d : Delimiters} {separator : String} {t : Tag} {as : List Attribute}

/-- What is placed in front of the value of an attribute, and the classes and ids that are still to be
placed behind it. -/
def placedAt (separator : List Char) (classes ids : List (List Char)) (a : Attribute) :
    List Char × List (List Char) × List (List Char) :=
  if a.value.isSome ∧ a.name = "class".toList ∧ classes ≠ [] then
    (joined [' '] classes ++ [' '], [], ids)
  else if a.value.isSome ∧ a.name = "id".toList ∧ ids ≠ [] then
    (joined separator ids ++ separator, classes, [])
  else ([], classes, ids)

/-- The attributes of an opening tag with the statements of their values. -/
def valuedAttributes (d : Delimiters) (separator : List Char) (classes ids : List (List Char)) :
    List Attribute → Interpolated
  | [] => literal (attributesText separator classes ids [])
  | a :: as =>
    let (front, classes, ids) := placedAt separator classes ids a
    a.statements d front ++ valuedAttributes d separator classes ids as

/-- The opening tag with the statements in the values of its attributes. -/
def valued (d : Delimiters) (separator : String) (as : List Attribute) (t : Tag) : Interpolated :=
  literal ('<' :: t.name) ++ valuedAttributes d separator.toList t.classes t.ids as ++ literal ['>']

/-- The opening tag with the statements that are found in it. -/
def found (d : Delimiters) (separator : String) (t : Tag) : Interpolated :=
  if t.executable then scan d (t.opening separator) else literal (t.opening separator)

theorem source_statements (front : List Char) (a : Attribute) : (a.statements d front).source d =
    ' ' :: (a.name ++ a.value.elim [] fun v => '=' :: '"' :: (front ++ (v ++ ['"']))) := by
  obtain ⟨name, value⟩ := a
  cases value with
  | none => simp [Attribute.statements]
  | some v => simp [Attribute.statements, (Interpolated.splits_scan d v).source_eq]

theorem map_statements (front : List Char) (a : Attribute) :
    (a.statements d front).parts.map Prod.snd = a.inValue d := by
  obtain ⟨name, value⟩ := a
  cases value with
  | none => rfl
  | some v => simp [Attribute.statements, Attribute.inValue, literal]

/-- An attribute is written with what is placed in front of its value. -/
theorem attributesText_cons (separator : List Char) (classes ids : List (List Char)) {a : Attribute}
    (ha : '=' ∉ a.name) (bs : List (List Char)) :
    attributesText separator classes ids (a.text :: bs) =
      (a.statements d (placedAt separator classes ids a).1).source d ++
        attributesText separator (placedAt separator classes ids a).2.1
          (placedAt separator classes ids a).2.2 bs := by
  rw [source_statements]
  unfold placedAt
  rcases attributesText_cases separator classes ids a.text bs with
    ⟨v, hclasses, htext, heq⟩ | ⟨v, hids, htext, heq⟩ | ⟨hclass, hid, heq⟩
  · obtain ⟨hname, u, hu, rfl⟩ := Attribute.of_text ha equals_notMem_class htext
    rw [if_pos ⟨by rw [hu]; rfl, hname, hclasses⟩, heq, hname, hu, classStart_append]
    simp
  · obtain ⟨hname, u, hu, rfl⟩ := Attribute.of_text ha equals_notMem_id htext
    have hother : a.name ≠ "class".toList := fun h => class_ne_id (h.symm.trans hname)
    rw [if_neg fun h => hother h.2.1, if_pos ⟨by rw [hu]; rfl, hname, hids⟩, heq, hname, hu,
      idStart_append]
    simp
  · rw [if_neg, if_neg, heq]
    · cases hv : a.value <;> simp [Attribute.text, hv]
    · rintro ⟨hvalue, hname, hids⟩
      obtain ⟨v, hv⟩ := Option.isSome_iff_exists.1 hvalue
      exact hid.resolve_left hids (Attribute.start_prefix hv hname)
    · rintro ⟨hvalue, hname, hclasses⟩
      obtain ⟨v, hv⟩ := Option.isSome_iff_exists.1 hvalue
      exact hclass.resolve_left hclasses (Attribute.start_prefix hv hname)

theorem source_valuedAttributes (has : ∀ a ∈ as, '=' ∉ a.name) :
    ∀ (separator : List Char) (classes ids : List (List Char)),
      (valuedAttributes d separator classes ids as).source d =
        attributesText separator classes ids (as.map Attribute.text) := by
  induction as with
  | nil => exact fun _ _ _ => rfl
  | cons a as ih =>
    intro separator classes ids
    rw [List.forall_mem_cons] at has
    rw [List.map_cons, attributesText_cons separator classes ids has.1, valuedAttributes,
      Interpolated.source_append, ih has.2]

/-- The statements are those in the values, in their order. -/
theorem map_valuedAttributes (as : List Attribute) :
    ∀ (separator : List Char) (classes ids : List (List Char)),
      (valuedAttributes d separator classes ids as).parts.map Prod.snd =
        as.flatMap (·.inValue d) := by
  induction as with
  | nil => exact fun _ _ _ => rfl
  | cons a as ih =>
    intro separator classes ids
    rw [valuedAttributes, Interpolated.statements_append, map_statements, ih, List.flatMap_cons]

/-- The statements of the opening tag are those of the values. -/
theorem map_valued (separator : String) (as : List Attribute) (t : Tag) :
    (t.valued d separator as).parts.map Prod.snd = as.flatMap (·.inValue d) := by
  rw [valued, Interpolated.statements_append, Interpolated.statements_append, map_valuedAttributes]
  simp [literal]

/-- The statements of values end where they are written. -/
theorem closing_valued {p : List Char × List Char} (hp : p ∈ (t.valued d separator as).parts) :
    Leftmost d.closing p.2 (p.2 ++ d.closing) := by
  have hmem : p.2 ∈ as.flatMap (·.inValue d) := by
    rw [← map_valued separator as t]
    exact List.mem_map_of_mem hp
  obtain ⟨⟨name, value⟩, -, ha⟩ := List.mem_flatMap.1 hmem
  cases value with
  | none => cases ha
  | some v =>
    obtain ⟨q, hq, heq⟩ := List.mem_map.1 ha
    rw [← heq]
    exact (Interpolated.splits_scan d v).isFound.closing q hq

end Tag

theorem Attribute.inValue_eq_nil_iff {d : Delimiters} {a : Attribute} :
    a.inValue d = [] ↔ ¬ a.isExecutable d = true := by
  obtain ⟨name, value⟩ := a
  cases value with
  | none => simp [inValue, isExecutable]
  | some v => simp [inValue, isExecutable, (Interpolated.splits_scan d v).holds_iff]

namespace Tag.IsRead

variable {d : Delimiters} {t : Tag} {as : List Attribute} (h : IsRead d as t) (separator : String)
include h

/-- The opening tag is written for its statements and the text around them. -/
theorem source_valued : (t.valued d separator as).source d = t.opening separator := by
  rw [valued, opening, Interpolated.source_append, Interpolated.source_append,
    source_valuedAttributes h.names, h.attributes]
  simp

/-- A tag that is not executable has no statements in its values. -/
theorem parts_valued_eq_nil_iff :
    (t.valued d separator as).parts = [] ↔ t.executable = false := by
  rw [← List.map_eq_nil_iff, map_valued, List.flatMap_eq_nil_iff, h.executable, List.any_eq_false]
  simp only [Attribute.inValue_eq_nil_iff]

/-- **The statements found are those of the values** exactly if the tag is not executable, or no text in
front of one of them starts a statement earlier, and the text behind all holds none. -/
theorem found_eq_iff : t.found d separator = t.valued d separator as ↔ (t.executable = true →
    (∀ p ∈ (t.valued d separator as).parts, Leftmost d.opening p.1 (p.1 ++ d.opening)) ∧
      ¬ Holds d (t.valued d separator as).rest) := by
  have hsource := h.source_valued separator
  cases hexecutable : t.executable with
  | false =>
    have hparts := (h.parts_valued_eq_nil_iff separator).2 hexecutable
    have hvalued : t.valued d separator as = literal (t.opening separator) := by
      rw [← hsource]
      exact Interpolated.eq_literal hparts
    have hfound : t.found d separator = literal (t.opening separator) := by simp [found, hexecutable]
    exact iff_of_true (hfound.trans hvalued.symm) fun h => absurd h Bool.false_ne_true
  | true =>
    have hfound : t.found d separator = scan d ((t.valued d separator as).source d) := by
      simp [found, hexecutable, hsource]
    rw [hfound, Interpolated.scan_source_iff]
    exact ⟨fun hi _ => ⟨hi.opening, hi.rest⟩,
      fun hi => ⟨(hi rfl).1, fun _ => closing_valued, (hi rfl).2⟩⟩

end Tag.IsRead

/-! ## Tag lines -/

/-- The closing tag of a line with the statements that are found in it. -/
def Tag.foundClosing (d : Delimiters) (trailing : List Char) (t : Tag) : Interpolated :=
  if trailing.isEmpty then literal t.closing else scan d t.closing

/-- The marks of the text behind a tag, if there is any. -/
def trailingMarks (s : Settings) (trailing : List Char) : List Mark :=
  if trailing.isEmpty then []
  else match inlineStatement? trailing with
    | some statement => [.statement statement]
    | none => (scan s.delimiters trailing).marks s true

theorem puts_emitOpening (s : Settings) (t : Tag) (pad : Bool) (line : Nat) :
    Puts (emitOpening s t pad line) line ((t.found s.delimiters s.idSeparator).marks s pad) := by
  unfold emitOpening Tag.found
  split
  · exact .interpolated s _ pad line
  · rw [Interpolated.marks_literal]
    exact (Puts.literal line _).seq (.space line pad)

theorem puts_emitTrailing (s : Settings) {trailing : List Char} (h : trailing.isEmpty = false)
    (line : Nat) : Puts (emitTrailing s trailing line) line (trailingMarks s trailing) := by
  unfold emitTrailing trailingMarks
  rw [h]
  cases inlineStatement? trailing with
  | some statement => exact .action line statement
  | none => exact .interpolated s trailing true line

/-- What is written for the lines of a tag: the opening tag split at the statements found in it, the text
behind the tag, and the closing tag. The statements found are those of the values, and the closing tag is
literal text, under the conditions that are given. -/
structure WritesTag (s : Settings) (content trailing : List Char) (t : Tag) (as : List Attribute) :
    Prop where
  read : t.IsRead s.delimiters as
  /-- What is meant to be written: the text of the opening tag, with the statements of the values. -/
  source : (t.valued s.delimiters s.idSeparator as).source s.delimiters = t.opening s.idSeparator
  statements : (t.valued s.delimiters s.idSeparator as).parts.map Prod.snd =
    as.flatMap (·.inValue s.delimiters)
  leaf : ∀ place, Puts (Tree.emit s (.leaf place content)) place.line
    ((t.found s.delimiters s.idSeparator).marks s (!trailing.isEmpty) ++
      (trailingMarks s trailing ++
        (t.foundClosing s.delimiters trailing).marks s (!trailing.isEmpty)))
  opening : ∀ place, Puts (Tree.emit s (.opening place content)) place.line
    ((t.found s.delimiters s.idSeparator).marks s false ++ trailingMarks s trailing)
  closing : ∀ place, Puts (Tree.emit s (.closing place content)) place.line [.text t.closing]
  /-- When the statements of the opening tag are those that are meant. -/
  found_iff : t.found s.delimiters s.idSeparator = t.valued s.delimiters s.idSeparator as ↔
    (t.executable = true →
      (∀ p ∈ (t.valued s.delimiters s.idSeparator as).parts,
        Leftmost s.delimiters.opening p.1 (p.1 ++ s.delimiters.opening)) ∧
      ¬ Holds s.delimiters (t.valued s.delimiters s.idSeparator as).rest)
  /-- When the closing tag is literal text. -/
  foundClosing_iff : t.foundClosing s.delimiters trailing = literal t.closing ↔
    (trailing ≠ [] → ¬ Holds s.delimiters t.closing)

variable {s : Settings} {content trailing : List Char} {t : Tag}

theorem puts_leaf (h : Tag.parse s.delimiters content = .ok (t, trailing)) (place : Place) :
    Puts (Tree.emit s (.leaf place content)) place.line
      ((t.found s.delimiters s.idSeparator).marks s (!trailing.isEmpty) ++
        (trailingMarks s trailing ++
          (t.foundClosing s.delimiters trailing).marks s (!trailing.isEmpty))) := by
  rw [emit_leaf h, Tag.foundClosing]
  cases hempty : trailing.isEmpty with
  | true =>
    rw [if_pos rfl, if_pos rfl, trailingMarks, hempty, if_pos rfl, Interpolated.marks_literal]
    exact (puts_emitOpening s t false place.line).seq (.literal place.line t.closing)
  | false =>
    rw [if_neg Bool.false_ne_true, if_neg Bool.false_ne_true]
    exact (puts_emitOpening s t true place.line).seq
      ((puts_emitTrailing s hempty place.line).seq (.interpolated s t.closing true place.line))

theorem puts_opening (h : Tag.parse s.delimiters content = .ok (t, trailing)) (place : Place) :
    Puts (Tree.emit s (.opening place content)) place.line
      ((t.found s.delimiters s.idSeparator).marks s false ++ trailingMarks s trailing) := by
  rw [emit_opening h]
  apply (puts_emitOpening s t false place.line).seq
  cases hempty : trailing.isEmpty with
  | true =>
    rw [trailingMarks, hempty]
    exact .pure place.line
  | false => exact puts_emitTrailing s hempty place.line

theorem Tag.foundClosing_eq_iff (d : Delimiters) (trailing : List Char) (t : Tag) :
    t.foundClosing d trailing = literal t.closing ↔ (trailing ≠ [] → ¬ Holds d t.closing) := by
  unfold foundClosing
  split
  · next h => exact iff_of_true rfl fun hne => absurd (List.isEmpty_iff.1 h) hne
  · next h =>
    have hne : trailing ≠ [] := fun heq => h (List.isEmpty_iff.2 heq)
    rw [← Interpolated.splits_iff]
    constructor
    · intro hsplits _ hholds
      exact hsplits.holds_iff.1 hholds rfl
    · intro hnone
      exact .literal (hnone hne)

/-- **What is written for a tag line.** Only the values and the text behind a tag hold statements, and each
statement of a value is written in its place, exactly if the tag is not executable or the text around
the statements of its values starts none, and the closing tag holds none if it stands behind a text. -/
theorem exists_writesTag (h : Tag.parse s.delimiters content = .ok (t, trailing)) :
    ∃ as, WritesTag s content trailing t as := by
  obtain ⟨as, hread⟩ := Tag.parse_isRead h
  refine ⟨as, hread, hread.source_valued _, Tag.map_valued _ as t, puts_leaf h, puts_opening h,
    fun place => ?_, hread.found_eq_iff _, Tag.foundClosing_eq_iff _ trailing t⟩
  rw [emit_closing h]
  exact .literal place.line t.closing

/-- A link with a statement in a value, and text behind it. -/
theorem exists_writesTag_link : ∃ as, WritesTag .standard "%a.b(href=\"\x7b\x7b.Y\x7d\x7d\") t".toList
    " t".toList
    { name := "a".toList
      classes := ["b".toList]
      attributes := ["href=\"\x7b\x7b.Y\x7d\x7d\"".toList]
      executable := true } as :=
  exists_writesTag rfl

/-- A name with a statement is literal text in the opening tag and runs in the closing tag. A class with
a statement runs if a value holds one too, and a delimiter in a name hides the statement of a value. -/
theorem statements_outside_values :
    (parse .standard "p" "%a\x7b\x7bx\x7d\x7d t").1 = .ok [("p", { name := "p", nodes := [
      .text "<a\x7b\x7bx\x7d\x7d>  t </a", .action 1 .body { commands := [[.call "x"]] }, .text "> "] })] ∧
    (parse .standard "p" "%p.\x7b\x7bx\x7d\x7d(title=\"\x7b\x7b.Y\x7d\x7d\")").1 =
      .ok [("p", { name := "p", nodes := [
        .text "<p title=\"", .action 1 .body { commands := [[.field ["Y"]]] }, .text "\" class=\"",
        .action 1 .body { commands := [[.call "x"]] }, .text "\"></p>"] })] ∧
    (parse .standard "p" "%a\x7b\x7b(href=\"\x7b\x7b.Y\x7d\x7d\")").1 =
      .ok [("p", { name := "p", nodes := [.text "<a\x7b\x7b href=\"\x7b\x7b.Y\x7d\x7d\"></a\x7b\x7b>"] })] :=
  ⟨by cbv, by cbv, by cbv⟩

end Stencil.Outline
