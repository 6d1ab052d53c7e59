import Stencil.Outline.Template
import Stencil.Proofs.Outline.TagLine

/-!
# The tag of an element

An element without statements is read from its line, and its tag is written as the HTML says.

* `Tag.parse_line` takes the line apart.
* `Element.opening_tag` and `Element.closing_tag` say that the tag is written as the element is.
* `emit_leaf`, `emit_opening` and `emit_closing` say what is done for the line of a tag that is read.
-/

namespace Stencil.Outline

open Interpolated (Holds)

/-! ## Reading the line -/

variable {e : Element}

theorem IsLabel.isSegment {s : List Char} (h : IsLabel s) : IsSegment s := ⟨h.ne_nil, h.chars, h.last⟩

theorem Attribute.IsStatic.not_holds {a : Attribute} (h : a.IsStatic) {v : List Char}
    (hv : v ∈ a.value) : ¬ Holds .standard v :=
  Interpolated.not_holds_of_not_infix (h.value v hv).1.opening

theorem Attribute.IsStatic.isWritable {a : Attribute} (h : a.IsStatic) : a.IsWritable .standard where
  name_ne_nil := h.name_ne_nil
  name_chars := h.name_chars
  value v hv := ⟨.literal v, .literal (h.not_holds hv), List.forall_mem_nil _, (h.value v hv).2,
    (h.value v hv).1.opening⟩

theorem Element.IsStatic.isWritable (h : e.IsStatic) : e.IsWritable .standard where
  name := h.name.isSegment
  classes c hc := (h.classes c hc).isSegment
  ids i hi := (h.ids i hi).isSegment
  attributes a ha := (h.attributes a ha).isWritable

theorem Element.IsStatic.endsCompact (h : e.IsStatic) : EndsCompact e.trailing :=
  h.spaced.imp_right fun ⟨t, ht⟩ => ⟨' ', t, ht, .inl rfl⟩

/-- A tag without statements is not executable. -/
theorem Element.IsStatic.any_isExecutable (h : e.IsStatic) :
    e.attributes.any (·.isExecutable .standard) = false := by
  rw [List.any_eq_false]
  intro a ha hexecutable
  obtain ⟨v, hv, hholds⟩ := Attribute.isExecutable_iff.1 hexecutable
  exact (h.attributes a ha).not_holds hv hholds

/-- **The line of an element is taken apart** into its tag and the text behind it. -/
theorem Tag.parse_line (he : e.IsStatic) {content : List Char} (h : e.IsLine content) :
    Tag.parse .standard content = .ok (e.tag, e.trailing) := by
  obtain ⟨compact, brackets, hcompact, hbrackets, rfl⟩ := h
  rw [parse_tagLine (by decide) he.isWritable hcompact hbrackets fun _ => he.endsCompact,
    he.any_isExecutable]
  rfl

/-! ## Writing the tag -/

theorem eq_of_append_equals {m n s t : List Char} (hm : '=' ∉ m) (hn : '=' ∉ n)
    (h : m ++ '=' :: s = n ++ '=' :: t) : m = n := by
  have htake : ∀ {m s : List Char}, '=' ∉ m → (m ++ '=' :: s).takeWhile (· ≠ '=') = m := by
    intro m s hm
    have hall : ∀ c ∈ m, decide (c ≠ '=') = true := by
      rintro c hc
      refine decide_eq_true ?_
      rintro rfl
      exact hm hc
    rw [List.takeWhile_append_of_pos hall]
    simp
  rw [← htake (s := s) hm, h, htake hn]

/-- An attribute that starts as one of a name with a value does is one. -/
theorem Attribute.of_text {a : Attribute} (ha : '=' ∉ a.name) {name v : List Char} (hname : '=' ∉ name)
    (h : a.text = name ++ '=' :: '"' :: v) : a.name = name ∧ ∃ u, a.value = some u ∧ v = u ++ ['"'] := by
  obtain ⟨n, value⟩ := a
  cases value with
  | none =>
    rw [text, List.append_nil] at h
    exact absurd (by rw [h]; simp) ha
  | some u =>
    obtain rfl : n = name := eq_of_append_equals ha hname h
    have hquoted := List.append_cancel_left h
    simp only [List.cons.injEq, true_and] at hquoted
    exact ⟨rfl, u, rfl, hquoted.symm⟩

theorem Attribute.start_prefix {a : Attribute} {name v : List Char} (hv : a.value = some v)
    (hname : a.name = name) : name ++ ['=', '"'] <+: a.text :=
  ⟨v ++ ['"'], by simp [text, hv, hname]⟩

/-! ## Placing classes and ids -/

namespace Attribute

variable {a : Attribute} {name added separator : List Char} {as : List Attribute}

theorem place_cons_ne (h : ∀ v, a.value = some v → a.name ≠ name) :
    place name added separator (a :: as) = a :: place name added separator as := by
  rw [place]
  split
  · next v hv => rw [if_neg (h v hv)]
  · rfl

theorem place_cons_self {v : List Char} (hv : a.value = some v) (hname : a.name = name) :
    place name added separator (a :: as) = ⟨name, some (added ++ separator ++ v)⟩ :: as := by
  rw [place, hv]
  simp only [hname, if_true]

end Attribute

variable {separator : List Char} {a : Attribute} {as : List Attribute}

theorem class_ne_id : "class".toList ≠ "id".toList := by decide

theorem equals_notMem_class : '=' ∉ "class".toList := by decide

theorem equals_notMem_id : '=' ∉ "id".toList := by decide

/-- Where there are no attributes, the classes and ids make up their own. -/
theorem placed_nil (classes ids : List (List Char)) : placed separator classes ids [] =
    (if classes.isEmpty then [] else [⟨"class".toList, some (List.intercalate [' '] classes)⟩]) ++
      if ids.isEmpty then [] else [⟨"id".toList, some (List.intercalate separator ids)⟩] := by
  have hne := class_ne_id
  unfold placed
  -- the two names are long to compare, and only have to differ
  generalize "class".toList = className at hne ⊢
  generalize "id".toList = idName at hne ⊢
  cases classes with
  | nil => cases ids <;> rfl
  | cons c cs =>
    cases ids with
    | nil => rfl
    | cons i is =>
      have hplace : ∀ s added : List Char, Attribute.place idName added separator
          [⟨className, some s⟩] = [⟨className, some s⟩, ⟨idName, some added⟩] := fun s added =>
        Attribute.place_cons_ne fun _ _ => hne
      exact hplace _ _

/-- An attribute stays as it is if it has no value or another name, or if there is nothing to place. -/
theorem placed_cons_other {classes ids : List (List Char)}
    (hclass : classes = [] ∨ ∀ v, a.value = some v → a.name ≠ "class".toList)
    (hid : ids = [] ∨ ∀ v, a.value = some v → a.name ≠ "id".toList) :
    placed separator classes ids (a :: as) = a :: placed separator classes ids as := by
  have hfirst : (if classes.isEmpty then a :: as
      else Attribute.place "class".toList (List.intercalate [' '] classes) [' '] (a :: as)) =
        a :: if classes.isEmpty then as
          else Attribute.place "class".toList (List.intercalate [' '] classes) [' '] as := by
    rcases hclass with rfl | hne
    · rfl
    · rw [Attribute.place_cons_ne hne]
      split <;> rfl
  unfold placed
  rw [hfirst]
  rcases hid with rfl | hne
  · rfl
  · dsimp only
    rw [Attribute.place_cons_ne hne]
    split <;> rfl

/-- The first `class` attribute with a value takes the classes. -/
theorem placed_cons_class {v : List Char} (hv : a.value = some v) (hname : a.name = "class".toList)
    (c : List Char) (cs ids : List (List Char)) :
    placed separator (c :: cs) ids (a :: as) =
      ⟨"class".toList, some (List.intercalate [' '] (c :: cs) ++ [' '] ++ v)⟩ ::
        placed separator [] ids as := by
  unfold placed
  simp only [List.isEmpty_cons, List.isEmpty_nil, Bool.false_eq_true, if_false, if_true,
    Attribute.place_cons_self hv hname]
  rw [Attribute.place_cons_ne fun _ _ => class_ne_id]
  split <;> rfl

/-- The first `id` attribute with a value takes the ids. -/
theorem placed_cons_id {v : List Char} (hv : a.value = some v) (hname : a.name = "id".toList)
    (i : List Char) (classes is : List (List Char)) :
    placed separator classes (i :: is) (a :: as) =
      ⟨"id".toList, some (List.intercalate separator (i :: is) ++ separator ++ v)⟩ ::
        placed separator classes [] as := by
  have hother : ∀ v, a.value = some v → a.name ≠ "class".toList := fun _ _ h =>
    class_ne_id (h.symm.trans hname)
  unfold placed
  simp only [List.isEmpty_cons, List.isEmpty_nil, Bool.false_eq_true, if_false, if_true,
    Attribute.place_cons_ne hother]
  split <;> rw [Attribute.place_cons_self hv hname]

theorem classStart_append (s : List Char) :
    Tag.classStart ++ s = "class".toList ++ '=' :: '"' :: s := rfl

theorem idStart_append (s : List Char) : Tag.idStart ++ s = "id".toList ++ '=' :: '"' :: s := rfl

/-- How the attributes are written one by one: the first that starts as a class takes the classes, the
first that starts as an id the ids, and any other is written as it is. -/
theorem Tag.attributesText_cases (separator : List Char) (classes ids : List (List Char)) (b : List Char)
    (bs : List (List Char)) :
    (∃ v, classes ≠ [] ∧ b = classStart ++ v ∧ attributesText separator classes ids (b :: bs) =
        ' ' :: (classStart ++ (joined [' '] classes ++ ' ' :: v)) ++
          attributesText separator [] ids bs) ∨
      (∃ v, ids ≠ [] ∧ b = idStart ++ v ∧ attributesText separator classes ids (b :: bs) =
        ' ' :: (idStart ++ (joined separator ids ++ (separator ++ v))) ++
          attributesText separator classes [] bs) ∨
      ((classes = [] ∨ ¬ classStart <+: b) ∧ (ids = [] ∨ ¬ idStart <+: b) ∧
        attributesText separator classes ids (b :: bs) =
          ' ' :: b ++ attributesText separator classes ids bs) := by
  rw [← Text.after?_eq_none_iff, ← Text.after?_eq_none_iff, attributesText.eq_def]
  dsimp only
  split
  · next v c cs hv =>
    exact .inl ⟨v, List.cons_ne_nil c cs, Text.after?_eq_some_iff.1 hv, by simp⟩
  · next v i is hv _ =>
    exact .inr (.inl ⟨v, List.cons_ne_nil i is, Text.after?_eq_some_iff.1 hv, by simp⟩)
  · next hclass hid =>
    refine .inr (.inr ⟨Classical.or_iff_not_imp_left.2 fun hne => ?_,
      Classical.or_iff_not_imp_left.2 fun hne => ?_, rfl⟩)
    · obtain ⟨c, cs, hcs⟩ := List.exists_cons_of_ne_nil hne
      exact Option.eq_none_iff_forall_ne_some.2 fun v hv => hclass v c cs hv hcs
    · obtain ⟨i, is, his⟩ := List.exists_cons_of_ne_nil hne
      exact Option.eq_none_iff_forall_ne_some.2 fun v hv => hid v i is hv his

/-- **The attributes of a tag are written with the classes and ids in their places.** -/
theorem attributesText_placed (has : ∀ a ∈ as, '=' ∉ a.name) :
    ∀ classes ids : List (List Char),
      Tag.attributesText separator classes ids (as.map Attribute.text) =
        (placed separator classes ids as).flatMap fun a => ' ' :: a.text := by
  induction as with
  | nil =>
    intro classes ids
    rw [List.map_nil, Tag.attributesText, placed_nil, List.flatMap_append]
    cases classes <;> cases ids <;>
      simp [Attribute.text, classStart_append, idStart_append, Tag.joined]
  | cons a as ih =>
    intro classes ids
    rw [List.forall_mem_cons] at has
    obtain ⟨ha, has⟩ := has
    rw [List.map_cons]
    rcases Tag.attributesText_cases separator classes ids a.text (as.map Attribute.text) with
      ⟨v, hclasses, htext, heq⟩ | ⟨v, hids, htext, heq⟩ | ⟨hclass, hid, heq⟩
    · obtain ⟨hname, u, hu, rfl⟩ := Attribute.of_text ha equals_notMem_class htext
      obtain ⟨c, cs, rfl⟩ := List.exists_cons_of_ne_nil hclasses
      rw [heq, placed_cons_class hu hname, ih has]
      simp [Attribute.text, classStart_append, Tag.joined]
    · obtain ⟨hname, u, hu, rfl⟩ := Attribute.of_text ha equals_notMem_id htext
      obtain ⟨i, is, rfl⟩ := List.exists_cons_of_ne_nil hids
      rw [heq, placed_cons_id hu hname, ih has]
      simp [Attribute.text, idStart_append, Tag.joined]
    · have hnoClass : classes = [] ∨ ∀ v, a.value = some v → a.name ≠ "class".toList :=
        hclass.imp_right fun h v hv hname => h (Attribute.start_prefix hv hname)
      have hnoId : ids = [] ∨ ∀ v, a.value = some v → a.name ≠ "id".toList :=
        hid.imp_right fun h v hv hname => h (Attribute.start_prefix hv hname)
      rw [heq, placed_cons_other hnoClass hnoId, ih has, List.flatMap_cons]

namespace Element

/-- **The opening tag is written as the HTML says.** -/
theorem opening_tag (he : e.IsStatic) (separator : String) :
    e.tag.opening separator = e.opening separator.toList := by
  have hnames : ∀ a ∈ e.attributes, '=' ∉ a.name := fun a ha h =>
    ((he.attributes a ha).name_chars _ h).2.2 rfl
  unfold Tag.opening opening
  rw [tag, attributesText_placed hnames]
  simp

theorem closing_tag (e : Element) : e.tag.closing = e.closing := by
  simp [Tag.closing, closing, tag]

end Element

/-! ## Lines of a template -/

section Lines

variable {s : Settings} {content trailing : List Char} {t : Tag}

theorem emit_leaf (h : Tag.parse s.delimiters content = .ok (t, trailing)) (place : Place) :
    Tree.emit s (.leaf place content) =
      if trailing.isEmpty then (do
        emitOpening s t false place.line
        Build.text (String.ofList t.closing))
      else (do
        emitOpening s t true place.line
        emitTrailing s trailing place.line
        Build.interpolated s t.closing true place.line) := by
  rw [Tree.emit, h]
  rfl

theorem emit_opening (h : Tag.parse s.delimiters content = .ok (t, trailing)) (place : Place) :
    Tree.emit s (.opening place content) = (do
      emitOpening s t false place.line
      if trailing.isEmpty then pure () else emitTrailing s trailing place.line) := by
  rw [Tree.emit, h]
  rfl

theorem emit_closing (h : Tag.parse s.delimiters content = .ok (t, trailing)) (place : Place) :
    Tree.emit s (.closing place content) = Build.text (String.ofList t.closing) := by
  rw [Tree.emit, h]
  rfl

end Lines

end Stencil.Outline
