/-!
# White space

The white space of the Unicode property `White_Space`, and trimming by it. Every front end and the
pipeline language use this one class.

* `isSpace` is the class; `isBlank` says that a text holds nothing else.
* `trimStart`, `trimEnd` and `trim` drop the white space at one end or at both.
-/

namespace Stencil.Text

/-- The characters of the property `White_Space`. -/
def isSpace (c : Char) : Bool :=
  let n := c.toNat
  (0x9 ≤ n && n ≤ 0xd) || n == 0x20 || n == 0x85 || n == 0xa0 || n == 0x1680 ||
    (0x2000 ≤ n && n ≤ 0x200a) || n == 0x2028 || n == 0x2029 || n == 0x202f || n == 0x205f ||
    n == 0x3000

/-- Whether a text is empty or white space throughout. -/
def isBlank (s : List Char) : Bool := s.all isSpace

/-- The text without its leading white space. -/
def trimStart (s : List Char) : List Char := s.dropWhile isSpace

/-- The text without its trailing white space. -/
def trimEnd (s : List Char) : List Char := (s.reverse.dropWhile isSpace).reverse

/-- The text without the white space at both ends. -/
def trim (s : List Char) : List Char := trimEnd (trimStart s)

/-! ## Laws of trimming -/

theorem isBlank_cons (c : Char) (s : List Char) : isBlank (c :: s) = (isSpace c && isBlank s) := by
  simp [isBlank]

theorem trimStart_of_not_space {c : Char} (s : List Char) (h : isSpace c = false) :
    trimStart (c :: s) = c :: s := by
  simp [trimStart, h]

theorem trimStart_cons_space {c : Char} (s : List Char) (h : isSpace c = true) :
    trimStart (c :: s) = trimStart s := by
  simp [trimStart, h]

/-- Trimming loses white space only: what is dropped in front is blank. -/
theorem exists_eq_append_trimStart (s : List Char) :
    ∃ w, isBlank w = true ∧ s = w ++ trimStart s :=
  ⟨s.takeWhile isSpace, by simp [isBlank, List.all_takeWhile],
    (List.takeWhile_append_dropWhile).symm⟩

end Stencil.Text
