/-!
# Searching texts

* `after? needle text` is the rest of a text that starts with `needle`.
* `cut? needle text` splits a text around the first occurrence of `needle`.
* `lines` splits a text into its physical lines.
* `byteSize` measures a text in bytes of its encoding.

A split loses nothing (`after?_eq_some_iff`, `cut?_eq_append`), so a search for a needle that is not
empty leaves a shorter rest (`cut?_length_lt`), which is what loops over occurrences recurse on.
-/

namespace Stencil.Text

/-! ## A fixed beginning -/

/-- What follows `needle` in a text that starts with it. -/
def after? : List Char → List Char → Option (List Char)
  | [], s => some s
  | _ :: _, [] => none
  | n :: ns, c :: s => if n = c then after? ns s else none

@[simp] theorem after?_nil (s : List Char) : after? [] s = some s := by simp [after?]

theorem after?_eq_some_iff {needle s r : List Char} : after? needle s = some r ↔ s = needle ++ r := by
  induction needle generalizing s with
  | nil => simp [eq_comm]
  | cons n ns ih =>
    cases s with
    | nil => simp [after?]
    | cons c s =>
      by_cases h : n = c
      · simp [after?, h, ih]
      · simp [after?, h, Ne.symm h]

/-- Whether a text starts with `needle`. -/
def startsWith (needle s : List Char) : Bool := (after? needle s).isSome

/-- Whether a text ends with `needle`. -/
def endsWith (needle s : List Char) : Bool := startsWith needle.reverse s.reverse

/-! ## The first occurrence -/

/-- The text before and the text after the first occurrence of `needle`. -/
def cut? (needle : List Char) : List Char → Option (List Char × List Char)
  | [] => (after? needle []).map fun rest => ([], rest)
  | c :: s =>
    match after? needle (c :: s) with
    | some rest => some ([], rest)
    | none => (cut? needle s).map fun (before, rest) => (c :: before, rest)

theorem cut?_eq_append {needle s before rest : List Char} (h : cut? needle s = some (before, rest)) :
    s = before ++ needle ++ rest := by
  induction s generalizing before with
  | nil =>
    simp only [cut?, Option.map_eq_some_iff] at h
    obtain ⟨r, hr, h⟩ := h
    obtain ⟨rfl, rfl⟩ := Prod.mk.inj h
    simpa using after?_eq_some_iff.1 hr
  | cons c s ih =>
    simp only [cut?] at h
    split at h
    · next r hr =>
      obtain ⟨rfl, rfl⟩ := Prod.mk.inj (Option.some.inj h)
      simpa using after?_eq_some_iff.1 hr
    · simp only [Option.map_eq_some_iff] at h
      obtain ⟨⟨b, r⟩, hb, h⟩ := h
      obtain ⟨rfl, rfl⟩ := Prod.mk.inj h
      simp [ih hb]

theorem cut?_length_lt {needle s before rest : List Char} (hn : needle ≠ [])
    (h : cut? needle s = some (before, rest)) : rest.length < s.length := by
  have hpos : 0 < needle.length := List.length_pos_iff.2 hn
  rw [cut?_eq_append h]
  simp only [List.length_append]
  omega

/-! ## Physical lines -/

/-- A line that ended in a line feed, without the carriage return before it. -/
def dropReturn (line : List Char) : List Char :=
  match line.reverse with
  | '\r' :: r => r.reverse
  | _ => line

/-- The lines of a text whose current line so far, reversed, is `done`: a line feed ends a line and
takes a carriage return before it along, and what follows the last line feed is a line unless it is
empty. -/
def linesFrom (done : List Char) : List Char → List (List Char)
  | [] => if done.isEmpty then [] else [done.reverse]
  | c :: s =>
    if c = '\n' then dropReturn done.reverse :: linesFrom [] s else linesFrom (c :: done) s

/-- The physical lines of a text. -/
def lines (s : List Char) : List (List Char) := linesFrom [] s

/-- The number of line feeds. -/
def lineFeeds (s : List Char) : Nat := s.count '\n'

theorem lineFeeds_append (s t : List Char) : lineFeeds (s ++ t) = lineFeeds s + lineFeeds t :=
  List.count_append

/-! ## Bytes -/

/-- The number of bytes that a text is encoded in. -/
def byteSize : List Char → Nat
  | [] => 0
  | c :: s => c.utf8Size + byteSize s

theorem byteSize_append (s t : List Char) : byteSize (s ++ t) = byteSize s + byteSize t := by
  induction s with
  | nil => simp [byteSize]
  | cons c s ih => simp [byteSize, ih, Nat.add_assoc]

theorem byteSize_pos {s : List Char} (h : s ≠ []) : 0 < byteSize s := by
  cases s with
  | nil => exact absurd rfl h
  | cons c s => have := c.utf8Size_pos; simp [byteSize]; omega

end Stencil.Text
