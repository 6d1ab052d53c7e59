import Stencil.Proofs.Outline.Tag

/-!
# Opening tags

An opening tag is written with the attributes in their order, and the classes and ids of the compact form
each in one place.

* `Places start separator labels as written new` says that labels are placed among attributes: in front of
  the value of the first one that starts in the given way, or in a new one.
* `Tag.attributesText_places` says that classes and ids are placed, by induction over the attributes.
* `Tag.opening_conserves` concludes for the opening tag.
-/

namespace Stencil.Outline

variable {start separator a : List Char} {labels as written new : List (List Char)}

/-- The labels are placed among the attributes `as`. They go in front of the value of the first attribute
that starts with `start`, or else make up an attribute of their own, which `new` lists. All other
attributes stay as they are. -/
inductive Places (start separator : List Char) :
    List (List Char) → List (List Char) → List (List Char) → List (List Char) → Prop
  | nothing (as : List (List Char)) : Places start separator [] as as []
  | merged {labels : List (List Char)} (before : List (List Char)) (v : List Char)
    (behind : List (List Char)) (hlabels : labels ≠ []) (hbefore : ∀ a ∈ before, ¬ start <+: a) :
    Places start separator labels (before ++ (start ++ v) :: behind)
      (before ++ (start ++ (List.intercalate separator labels ++ (separator ++ v))) :: behind) []
  | added {labels as : List (List Char)} (hlabels : labels ≠ []) (has : ∀ a ∈ as, ¬ start <+: a) :
    Places start separator labels as as [start ++ (List.intercalate separator labels ++ ['"'])]

namespace Places

/-- No attribute is changed if there is nothing to place. -/
theorem eq_of_nil (h : Places start separator [] as written new) : written = as ∧ new = [] := by
  cases h with
  | nothing => exact ⟨rfl, rfl⟩
  | merged _ _ _ hlabels _ => exact absurd rfl hlabels
  | added hlabels _ => exact absurd rfl hlabels

/-- An attribute that does not take the labels stays in front. -/
theorem cons (h : Places start separator labels as written new)
    (ha : labels = [] ∨ ¬ start <+: a) :
    Places start separator labels (a :: as) (a :: written) new := by
  cases h with
  | nothing => exact .nothing _
  | merged before v behind hlabels hbefore =>
    have ha := ha.resolve_left hlabels
    exact .merged (a :: before) v behind hlabels (List.forall_mem_cons.2 ⟨ha, hbefore⟩)
  | added hlabels has =>
    have ha := ha.resolve_left hlabels
    exact .added hlabels (List.forall_mem_cons.2 ⟨ha, has⟩)

/-- Labels without an attribute to go to make up their own. -/
theorem nil (start separator : List Char) (labels : List (List Char)) :
    Places start separator labels [] [] (if labels.isEmpty then []
      else [start ++ (List.intercalate separator labels ++ ['"'])]) := by
  cases labels with
  | nil => exact .nothing _
  | cons l ls => exact .added (List.cons_ne_nil l ls) (List.forall_mem_nil _)

end Places

namespace Tag

theorem idStart_not_class (v : List Char) : ¬ classStart <+: idStart ++ v :=
  Text.after?_eq_none_iff.1 rfl

theorem classStart_not_id (v : List Char) : ¬ idStart <+: classStart ++ v :=
  Text.after?_eq_none_iff.1 rfl

/-- **Classes and ids are placed among the attributes**: each once, and no attribute is lost. -/
theorem attributesText_places (separator : List Char) (as : List (List Char)) :
    ∀ classes ids : List (List Char), ∃ marked written newClass newId,
      Places classStart [' '] classes as marked newClass ∧
      Places idStart separator ids marked written newId ∧
      attributesText separator classes ids as =
        (written ++ newClass ++ newId).flatMap (' ' :: ·) := by
  induction as with
  | nil =>
    intro classes ids
    refine ⟨[], [], _, _, .nil _ _ classes, .nil _ _ ids, ?_⟩
    rw [attributesText]
    cases classes <;> cases ids <;> simp [joined]
  | cons a as ih =>
    intro classes ids
    rcases attributesText_cases separator classes ids a as with
      ⟨v, hclasses, rfl, heq⟩ | ⟨v, hids, rfl, heq⟩ | ⟨hclass, hid, heq⟩
    · obtain ⟨marked, written, newClass, newId, hmarked, hwritten, htext⟩ := ih [] ids
      obtain ⟨rfl, rfl⟩ := hmarked.eq_of_nil
      refine ⟨_, _, [], newId, .merged [] v marked hclasses (List.forall_mem_nil _),
        hwritten.cons (.inr (classStart_not_id _)), ?_⟩
      rw [heq, htext]
      simp [joined]
    · obtain ⟨marked, written, newClass, newId, hmarked, hwritten, htext⟩ := ih classes []
      obtain ⟨rfl, rfl⟩ := hwritten.eq_of_nil
      refine ⟨(idStart ++ v) :: written, _, newClass, [],
        hmarked.cons (.inr (idStart_not_class v)), .merged [] v written hids (List.forall_mem_nil _), ?_⟩
      rw [heq, htext]
      simp [joined]
    · obtain ⟨marked, written, newClass, newId, hmarked, hwritten, htext⟩ := ih classes ids
      refine ⟨a :: marked, a :: written, newClass, newId, hmarked.cons hclass, hwritten.cons hid, ?_⟩
      rw [heq, htext]
      rfl

/-- What starts as an attribute with a value ends as one. -/
theorem IsRead.value_of_start {d : Delimiters} {t : Tag} {as : List Attribute} (h : IsRead d as t)
    {name : List Char} (hname : '=' ∉ name) {v : List Char}
    (hv : name ++ '=' :: '"' :: v ∈ t.attributes) : ∃ u, v = u ++ ['"'] := by
  rw [h.attributes, List.mem_map] at hv
  obtain ⟨a, ha, htext⟩ := hv
  obtain ⟨-, u, -, hu⟩ := Attribute.of_text (h.names a ha) hname htext
  exact ⟨u, hu⟩

/-- **An opening tag loses and doubles nothing.** The classes are placed among the attributes, joined by
spaces, and then the ids, joined by the separator; the tag is the name, these attributes in their order
and the new ones. In a tag that was read, an attribute that starts as a class or an id does end in a
quote. -/
theorem opening_conserves (t : Tag) (separator : String) :
    (∃ marked written newClass newId,
      Places classStart [' '] t.classes t.attributes marked newClass ∧
      Places idStart separator.toList t.ids marked written newId ∧
      t.opening separator =
        '<' :: (t.name ++ ((written ++ newClass ++ newId).flatMap (' ' :: ·) ++ ['>']))) ∧
    ∀ d content trailing, Tag.parse d content = .ok (t, trailing) →
      ∀ v, classStart ++ v ∈ t.attributes ∨ idStart ++ v ∈ t.attributes → ∃ u, v = u ++ ['"'] := by
  constructor
  · obtain ⟨marked, written, newClass, newId, hmarked, hwritten, htext⟩ :=
      attributesText_places separator.toList t.attributes t.classes t.ids
    refine ⟨marked, written, newClass, newId, hmarked, hwritten, ?_⟩
    rw [opening, htext]
    simp
  · intro d content trailing hparse v hv
    obtain ⟨as, hread⟩ := parse_isRead hparse
    rcases hv with hv | hv
    · exact hread.value_of_start equals_notMem_class hv
    · exact hread.value_of_start equals_notMem_id hv

/-- A tag with two classes, an id, and attributes for both. -/
def crowded : Tag where
  name := "p".toList
  classes := ["a".toList, "b".toList]
  ids := ["i".toList]
  attributes := ["id=\"j\"".toList, "class=\"c\"".toList, "class=\"d\"".toList]

/-- The tag is read from a line, and is written with the classes and the id in front. -/
theorem opening_conserves_crowded :
    crowded.opening "_" = "<p id=\"i_j\" class=\"a b c\" class=\"d\">".toList ∧
    (∃ marked written newClass newId,
      Places classStart [' '] crowded.classes crowded.attributes marked newClass ∧
      Places idStart "_".toList crowded.ids marked written newId ∧
      crowded.opening "_" =
        '<' :: (crowded.name ++ ((written ++ newClass ++ newId).flatMap (' ' :: ·) ++ ['>']))) ∧
    ∃ u, "c\"".toList = u ++ ['"'] := by
  have hread : Tag.parse .standard "%p.a#i.b(id=\"j\" class=\"c\" class=\"d\")".toList =
      .ok (crowded, []) := rfl
  obtain ⟨hopening, hvalues⟩ := opening_conserves crowded "_"
  exact ⟨rfl, hopening, hvalues _ _ _ hread _ (.inl (by decide))⟩

end Tag

end Stencil.Outline
