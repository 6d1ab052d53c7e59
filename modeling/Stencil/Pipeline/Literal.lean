import Stencil.Fault
import Stencil.Number.Decimal
import Stencil.Text.Units

/-!
# Literals of the pipeline language

Numbers and strings as they are written in a statement.

* `Numeral` is a number split into its sign, the mark of its base and its body; `Numeral.scan` takes
  the longest one that a text starts with and `Numeral.token` gives its value.
* `quotedBody?` finds the end of a string in double quotes and `unescape` gives what it denotes.
-/

namespace Stencil

open Text (Piece joinUnits)

/-! ## Numbers -/

/-- The parts of a number. -/
structure Numeral where
  sign : List Char
  /-- The mark of a base other than ten, such as `0x`. -/
  mark : List Char
  base : Nat
  body : List Char

namespace Numeral

/-- Whether a character continues a body after `last`: digits and underscores, the letters of base
sixteen, and in base ten the point, the exponent letter and a sign right after it. -/
def continues (base : Nat) (last c : Char) : Bool :=
  c.isDigit || c = '_' ||
    (base = 16 && ('a' ≤ c && c ≤ 'f' || 'A' ≤ c && c ≤ 'F')) ||
    (base = 10 && (c = '.' || c = 'e' || c = 'E')) ||
    (base = 10 && (c = '+' || c = '-') && (last = 'e' || last = 'E'))

/-- The body that a text starts with, after the character `last`. -/
def scanBody (base : Nat) (last : Char) : List Char → List Char
  | [] => []
  | c :: s => if continues base last c then c :: scanBody base c s else []

theorem scanBody_isPrefix (base : Nat) (last : Char) (s : List Char) : scanBody base last s <+: s := by
  induction s generalizing last with
  | nil => simp [scanBody]
  | cons c s ih =>
    simp only [scanBody]
    split
    · exact (List.prefix_cons_inj c).2 (ih c)
    · exact List.nil_prefix

/-- The base that a letter after a zero stands for. -/
def markBase? (c : Char) : Option Nat :=
  if c = 'x' || c = 'X' then some 16
  else if c = 'o' || c = 'O' then some 8
  else if c = 'b' || c = 'B' then some 2
  else none

/-- The mark and the base at the start of a text; base ten has no mark. -/
def scanMark : List Char → List Char × Nat
  | '0' :: c :: _ =>
    match markBase? c with
    | some base => (['0', c], base)
    | none => ([], 10)
  | _ => ([], 10)

theorem scanMark_cases (s : List Char) :
    scanMark s = ([], 10) ∨ (scanMark s).1 ≠ [] ∧ (scanMark s).1 <+: s := by
  unfold scanMark
  split
  · split <;> simp
  · simp

theorem scanMark_isPrefix (s : List Char) : (scanMark s).1 <+: s := by
  rcases scanMark_cases s with h | h
  · simp [h]
  · exact h.2

/-- The number that a text starts with, after its sign. -/
def scan (sign s : List Char) : Numeral :=
  { sign
    mark := (scanMark s).1
    base := (scanMark s).2
    body := scanBody (scanMark s).2 ' ' (s.drop (scanMark s).1.length) }

/-- How a number is written. -/
def spelling (n : Numeral) : List Char := n.sign ++ (n.mark ++ n.body)

theorem spelling_scan_isPrefix (sign s : List Char) : (scan sign s).spelling <+: sign ++ s := by
  refine (List.prefix_append_right_inj sign).2 ?_
  conv => rhs; rw [List.prefix_iff_eq_append.1 (scanMark_isPrefix s) |>.symm]
  exact (List.prefix_append_right_inj _).2 (scanBody_isPrefix _ _ _)

/-- Whether a text can start a number after its sign. -/
def starts : List Char → Bool
  | c :: _ => c.isDigit || c = '.'
  | [] => false

theorem spelling_scan_ne_nil {s : List Char} (sign : List Char) (h : starts s = true) :
    (scan sign s).spelling ≠ [] := by
  rcases scanMark_cases s with hm | hm
  · cases s with
    | nil => simp [starts] at h
    | cons c s =>
      have hc : continues 10 ' ' c = true := by
        simp only [starts, Bool.or_eq_true, decide_eq_true_eq] at h
        rcases h with h | h <;> simp [continues, h]
      simp [spelling, scan, hm, scanBody, hc]
  · simp [spelling, scan, hm.1]

/-- Whether the body spells a floating point number. -/
def isFloat (n : Numeral) : Bool :=
  n.base = 10 && n.body.any fun c => c = '.' || c = 'e' || c = 'E'

/-- The value of a number as a token. Underscores stand between digits for the eye only; an integer
has at most 63 bits before its sign is applied. -/
def token (n : Numeral) : Outcome Token :=
  let digits := n.body.filter fun c => c ≠ '_'
  let invalid := Cause.invalidNumber (String.ofList n.spelling)
  if n.body.getLast? = some '_' then throw .trailingUnderscore
  else if n.isFloat then
    match Decimal.parse? (n.sign ++ digits) with
    | some d => return .float d.toBinary64
    | none => throw invalid
  else
    match digitsValue? n.base digits with
    | some v =>
      if v < 0x8000000000000000 then return .int (if n.sign = ['-'] then -(v : Int) else v)
      else throw invalid
    | none => throw invalid

end Numeral

/-! ## Strings -/

/-- The body of a string after its opening quote. A backslash takes the next character along, and a
line feed ends the search without success. -/
def quotedBody? : List Char → Option (List Char)
  | [] => none
  | '"' :: _ => some []
  | '\n' :: _ => none
  | '\\' :: c :: s => (quotedBody? s).map fun b => '\\' :: c :: b
  | c :: s => (quotedBody? s).map (c :: ·)

theorem quotedBody?_isPrefix {s b : List Char} (h : quotedBody? s = some b) : b ++ ['"'] <+: s := by
  fun_induction quotedBody? s generalizing b with
  | case1 => simp at h
  | case2 => simp_all
  | case3 => simp at h
  | case4 c s ih =>
    obtain ⟨b, hb, rfl⟩ := Option.map_eq_some_iff.1 h
    simpa using ih hb
  | case5 c s _ _ _ ih =>
    obtain ⟨b, hb, rfl⟩ := Option.map_eq_some_iff.1 h
    simpa using ih hb

/-- The character that a letter escapes. -/
def escaped? : Char → Option Char
  | '"' => some '"'
  | '\\' => some '\\'
  | '/' => some '/'
  | '\'' => some '\''
  | 'a' => some '\x07'
  | 'b' => some '\x08'
  | 'f' => some '\x0c'
  | 'n' => some '\n'
  | 'r' => some '\r'
  | 't' => some '\t'
  | 'v' => some '\x0b'
  | _ => none

/-- The code unit that four characters spell: a number in base sixteen, which may have a plus sign in
front. -/
def unitValue? (a b c d : Char) : Option Nat :=
  if a = '+' then digitsValue? 16 [b, c, d] else digitsValue? 16 [a, b, c, d]

/-- The pieces of a string body. -/
def pieces? : List Char → Option (List Piece)
  | [] => some []
  | '\\' :: 'u' :: a :: b :: c :: d :: s => do
    let n ← unitValue? a b c d
    let ps ← pieces? s
    return .unit n :: ps
  | '\\' :: c :: s => do
    let c ← escaped? c
    let ps ← pieces? s
    return .char c :: ps
  | '\\' :: [] => none
  | c :: s => (pieces? s).map (.char c :: ·)

/-- What a string body denotes. -/
def unescape (s : List Char) : Outcome (List Char) :=
  match pieces? s >>= joinUnits with
  | some cs => return cs
  | none => throw .badEscape

/-- The token of a string body: one without a backslash denotes itself. -/
def stringToken (body : List Char) : Outcome Token :=
  if body.contains '\\' then do
    let cs ← unescape body
    return .string (String.ofList cs)
  else return .verbatim (String.ofList body)

end Stencil
