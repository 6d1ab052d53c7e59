import Stencil.Pipeline.Literal

/-!
# The tokens of a statement

White space separates tokens and is skipped; every token takes the longest text that fits.

* `Lexed s` is a token read at the start of `s` with its spelling and what follows; the two make up
  `s`, and the spelling is not empty, so reading on always ends.
* `Lexed.read` reads the token at the first character of a text.
* `Lexeme.next` skips white space and reads a token with its place, `Lexeme.scan` reads all tokens up
  to the first that fails, and `tokenize` reads a whole statement.
-/

namespace Stencil

open Text (isSpace byteSize)

/-- A token at the start of a text. -/
structure Lexed (s : List Char) where
  token : Token
  spelling : List Char
  rest : List Char
  append_eq : spelling ++ rest = s
  spelling_ne_nil : spelling ≠ []

namespace Lexed

theorem rest_length_lt {s : List Char} (l : Lexed s) : l.rest.length < s.length := by
  have h := List.length_pos_iff.2 l.spelling_ne_nil
  have e := congrArg List.length l.append_eq
  rw [List.length_append] at e
  omega

/-- A token spelled by a beginning of the text. -/
def ofPrefix {s : List Char} (token : Token) (spelling : List Char) (h : spelling <+: s)
    (ne : spelling ≠ []) : Lexed s :=
  ⟨token, spelling, s.drop spelling.length, List.prefix_iff_eq_append.1 h, ne⟩

/-- A token of one character. -/
def single (token : Token) (c : Char) (s : List Char) : Lexed (c :: s) :=
  ⟨token, [c], s, rfl, by simp⟩

/-! ## Words -/

/-- The characters that begin an identifier. -/
def isWordStart (c : Char) : Bool := c.isAlpha || c = '_'

/-- The characters that continue an identifier. -/
def isWordPart (c : Char) : Bool := c.isAlphanum || c = '_'

/-- The identifier that a text starts with; empty if there is none. -/
def word : List Char → List Char
  | [] => []
  | c :: s => if isWordStart c then c :: s.takeWhile isWordPart else []

theorem word_isPrefix (s : List Char) : word s <+: s := by
  cases s with
  | nil => simp [word]
  | cons c s =>
    simp only [word]
    split
    · exact (List.prefix_cons_inj c).2 (List.takeWhile_prefix _)
    · exact List.nil_prefix

/-- A sign character and the identifier after it. -/
def marked (token : String → Token) (c : Char) (s : List Char) : Lexed (c :: s) :=
  ofPrefix (token (String.ofList (word s))) (c :: word s)
    ((List.prefix_cons_inj c).2 (word_isPrefix s)) (by simp)

/-! ## Numbers and strings -/

/-- A number with a sign in front. -/
def signed (c : Char) (s : List Char) : Outcome (Lexed (c :: s)) := do
  let n := Numeral.scan [c] s
  let token ← n.token
  return ofPrefix token n.spelling (Numeral.spelling_scan_isPrefix [c] s)
    (by simp [n, Numeral.spelling, Numeral.scan])

/-- A number without a sign. -/
def unsigned (c : Char) (s : List Char) (h : Numeral.starts (c :: s) = true) :
    Outcome (Lexed (c :: s)) := do
  let n := Numeral.scan [] (c :: s)
  let token ← n.token
  return ofPrefix token n.spelling (Numeral.spelling_scan_isPrefix [] (c :: s))
    (Numeral.spelling_scan_ne_nil [] h)

/-- A string in double quotes, after the first of them. -/
def quoted (s : List Char) : Outcome (Lexed ('"' :: s)) :=
  match h : quotedBody? s with
  | some b => do
    let token ← stringToken b
    return ofPrefix token ('"' :: (b ++ ['"']))
      ((List.prefix_cons_inj '"').2 (quotedBody?_isPrefix h)) (by simp)
  | none => throw .unclosedString

theorem takeWhile_append_isPrefix {c : Char} {s : List Char} (h : c ∈ s) :
    s.takeWhile (· ≠ c) ++ [c] <+: s := by
  induction s with
  | nil => simp at h
  | cons d s ih =>
    by_cases hd : d = c
    · simp [hd]
    · have : c ∈ s := by simpa [Ne.symm hd] using h
      simpa [hd] using ih this

/-- A string between a pair of marks, in which nothing is escaped. -/
def raw (c : Char) (s : List Char) : Outcome (Lexed (c :: s)) :=
  if h : c ∈ s then
    let b := s.takeWhile (· ≠ c)
    return ofPrefix (.verbatim (String.ofList b)) (c :: (b ++ [c]))
      ((List.prefix_cons_inj c).2 (takeWhile_append_isPrefix h)) (by simp)
  else throw .unclosedRawString

/-! ## Any token -/

/-- The mark of strings in which nothing is escaped, U+0060. -/
def rawMark : Char := '\x60'

/-- The dot of the current data or of a field. -/
def dotted (c : Char) (s : List Char) : Lexed (c :: s) :=
  if word s = [] then single .dot c s else marked .field c s

/-- A colon, which only occurs in `:=`. -/
def colon (c : Char) : (s : List Char) → Outcome (Lexed (c :: s))
  | '=' :: s => return ⟨.declare, [c, '='], s, rfl, by simp⟩
  | _ => throw (.unexpectedChar c)

/-- Reads the token at the first character of a text. -/
def read (c : Char) (s : List Char) : Outcome (Lexed (c :: s)) :=
  if c = '|' then return single .pipe c s
  else if c = ',' then return single .comma c s
  else if c = '(' then return single .openParen c s
  else if c = ')' then return single .closeParen c s
  else if c = ':' then colon c s
  else if c = '=' then return single .assign c s
  else if h : c = '.' then
    if (s.head?.map Char.isDigit).getD false then unsigned c s (by simp [Numeral.starts, h])
    else return dotted c s
  else if c = '$' then return marked .variable c s
  else if h : c = '"' then h ▸ quoted s
  else if c = rawMark then raw c s
  else if h : c.isDigit then unsigned c s (by simp [Numeral.starts, h])
  else if (c = '-' || c = '+') && Numeral.starts s then signed c s
  else if h : isWordStart c then
    return ofPrefix (.word (String.ofList (word (c :: s)))) (word (c :: s)) (word_isPrefix _)
      (by simp [word, h])
  else throw (.unexpectedChar c)

end Lexed

/-! ## Statements -/

namespace Lexeme

/-- The next token of a text that starts at byte `offset`, and what follows it. -/
def next (offset : UInt32) (s : List Char) : Outcome (Option (Lexeme × List Char)) :=
  match s.dropWhile isSpace with
  | [] => return none
  | c :: t => do
    let l ← Lexed.read c t
    let start := offset + (byteSize (s.takeWhile isSpace)).toUInt32
    return some (⟨l.token, start, start + (byteSize l.spelling).toUInt32⟩, l.rest)

theorem next_length_lt {offset : UInt32} {s rest : List Char} {l : Lexeme}
    (h : next offset s = .ok (some (l, rest))) : rest.length < s.length := by
  have hs := (List.dropWhile_sublist (p := isSpace) (l := s)).length_le
  unfold next at h
  split at h
  · simp [pure, Except.pure] at h
  · next c t hc =>
    cases hr : Lexed.read c t with
    | error e => simp [hr, bind, Except.bind] at h
    | ok l' =>
      simp only [hr, bind, Except.bind, pure, Except.pure, Except.ok.injEq, Option.some.injEq,
        Prod.mk.injEq] at h
      have := l'.rest_length_lt
      rw [hc] at hs
      rw [← h.2]
      omega

/-- The tokens of a text that starts at byte `offset`, up to its end or to the first that cannot be
read. -/
def scan (offset : UInt32) (s : List Char) : List Lexeme × Option Cause :=
  match h : next offset s with
  | .error e => ([], some e)
  | .ok none => ([], none)
  | .ok (some (l, rest)) =>
    have := next_length_lt h
    let (ls, e) := scan l.stop rest
    (l :: ls, e)
  termination_by s.length

end Lexeme

/-- The tokens of a statement. -/
def tokenize (s : List Char) : Outcome (List Lexeme) :=
  match Lexeme.scan 0 s with
  | (ls, none) => return ls
  | (_, some e) => throw e

end Stencil
