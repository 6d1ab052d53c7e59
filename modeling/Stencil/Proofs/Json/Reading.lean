import Stencil.Proofs.Json.Grammar
import Stencil.Proofs.Pipeline.Spelling

/-!
# The reader reads the grammar

Every text that the grammar of JSON gives a value is read, and read as that value. So the grammar gives
a text one value at most.

* `Json.string?_append` and `Json.Lexes` say that the parts of a text become tokens, whatever is behind
  them, if it cannot be taken for a part of a number or a word.
* `Json.Spelled` says that tokens are those of one value, in any container.
* `Json.parse?_of_denotes` is the conclusion.
-/

namespace Stencil.Json

open Text (Piece joinUnits isHighSurrogate isLowSurrogate)

variable {s t rest : List Char} {ts us : List Token} {j : Json} {outer : List Frame}

attribute [local simp] pieces? tokens? value? resume?

/-! ## Strings -/

theorem escaped?_eq_some_iff {e c : Char} : escaped? e = some c ↔ (e, c) ∈ stringEscapes := by
  unfold escaped?
  split <;> simp_all [stringEscapes, eq_comm]

theorem pieces?_quote (rest : List Char) : pieces? ('"' :: rest) = some ([], rest) := by
  simp

theorem pieces?_char {c : Char} (hquote : c ≠ '"') (hbackslash : c ≠ '\\') (s : List Char) :
    pieces? (c :: s) = (pieces? s).map fun p => (.char c :: p.1, p.2) := by
  rw [pieces?]
  · exact Option.map_eq_bind.symm
  · exact hquote
  · exact fun _ _ _ _ _ h => absurd h hbackslash
  · exact fun _ _ h => absurd h hbackslash

theorem pieces?_letter {e c : Char} (he : (e, c) ∈ stringEscapes) (s : List Char) :
    pieces? ('\\' :: e :: s) = (pieces? s).map fun p => (.char c :: p.1, p.2) := by
  have hunit : ∀ p ∈ stringEscapes, p.1 ≠ 'u' := by decide
  rw [pieces?, escaped?_eq_some_iff.2 he]
  · exact Option.map_eq_bind.symm
  · exact fun _ _ _ _ _ h => absurd h (hunit _ he)

theorem pieces?_unit {ds : List Char} {n : Nat} (hn : FourDigits ds n) (s : List Char) :
    pieces? ('\\' :: 'u' :: (ds ++ s)) = (pieces? s).map fun p => (.unit n :: p.1, p.2) := by
  obtain ⟨a, b, c, d, rfl⟩ := List.length_eq_four.1 hn.1
  change pieces? ('\\' :: 'u' :: a :: b :: c :: d :: s) = _
  rw [pieces?, (digitsValue?_eq_some_iff (by decide)).2 hn.2]
  exact Option.map_eq_bind.symm

/-- The pieces of a string up to its closing quote join to what it denotes. -/
theorem exists_pieces? (h : DenotesString s t) :
    ∃ ps, joinUnits ps = some t ∧ ∀ rest, pieces? (s ++ '"' :: rest) = some (ps, rest) := by
  induction h with
  | nil => exact ⟨[], rfl, pieces?_quote⟩
  | @char c _ _ hquote hbackslash _ _ ih =>
    obtain ⟨ps, hjoin, hps⟩ := ih
    refine ⟨.char c :: ps, by rw [joinUnits, hjoin]; rfl, fun rest => ?_⟩
    rw [List.cons_append, pieces?_char hquote hbackslash, hps]
    rfl
  | @letter _ c _ _ he _ ih =>
    obtain ⟨ps, hjoin, hps⟩ := ih
    refine ⟨.char c :: ps, by rw [joinUnits, hjoin]; rfl, fun rest => ?_⟩
    rw [List.cons_append, List.cons_append, pieces?_letter he, hps]
    rfl
  | @unit _ _ _ c hc _ ih =>
    obtain ⟨ps, hjoin, hps⟩ := ih
    refine ⟨.unit c.toNat :: ps, by rw [joinUnits_unit, hjoin]; rfl, fun rest => ?_⟩
    rw [List.cons_append, List.cons_append, List.append_assoc, pieces?_unit hc, hps]
    rfl
  | @pair _ _ _ _ high low c hhigh hlow hhighs hlows hc _ ih =>
    obtain ⟨ps, hjoin, hps⟩ := ih
    refine ⟨.unit high :: .unit low :: ps, ?_, fun rest => ?_⟩
    · have hishigh : isHighSurrogate high = true := by simpa [isHighSurrogate] using hhighs
      have hislow : isLowSurrogate low = true := by simpa [isLowSurrogate] using hlows
      rw [joinUnits, if_pos hishigh, if_pos hislow, (pairChar_eq_iff hhighs hlows).2 hc, hjoin]
      rfl
    · simp only [List.cons_append, List.append_assoc]
      rw [pieces?_unit hhigh, pieces?_unit hlow, hps]
      rfl

/-- **A string is read up to its closing quote.** -/
theorem string?_append (h : DenotesString s t) (rest : List Char) :
    string? (s ++ '"' :: rest) = some (t, rest) := by
  obtain ⟨ps, hjoin, hps⟩ := exists_pieces? h
  rw [string?, hps]
  simp [hjoin]

/-! ## Tokens -/

/-- The text does not go on with a part of a number or a word. -/
def Stops (rest : List Char) : Prop := ∀ c ∈ rest.head?, isNumeral c = false ∧ c.isAlpha = false

theorem stops_nil : Stops [] := fun _ hc => by cases hc

theorem stops_cons {c : Char} (hc : isNumeral c = false ∧ c.isAlpha = false) (s : List Char) :
    Stops (c :: s) := fun d hd => by cases hd; exact hc

/-- The text becomes these tokens. -/
def Lexes (t : List Char) (ts : List Token) : Prop :=
  ∀ rest, Stops rest → tokens? (t ++ rest) = (tokens? rest).map (ts ++ ·)

/-- The signs that are tokens. -/
inductive Sign : Char → Token → Prop
  | openArray : Sign '[' .openArray
  | closeArray : Sign ']' .closeArray
  | openObject : Sign '\x7b' .openObject
  | closeObject : Sign '\x7d' .closeObject
  | comma : Sign ',' .comma
  | colon : Sign ':' .colon

theorem tokens?_sign {c : Char} {token : Token} (h : Sign c token) (s : List Char) :
    tokens? (c :: s) = (tokens? s).map (token :: ·) := by
  cases h <;> simp

theorem stops_sign {c : Char} {token : Token} (h : Sign c token) (s : List Char) : Stops (c :: s) := by
  refine stops_cons ?_ s
  cases h <;> decide

/-- A sign in front of a text. -/
theorem Lexes.cons_sign {c : Char} {token : Token} (hc : Sign c token) (h : Lexes t ts) :
    Lexes (c :: t) (token :: ts) := by
  intro rest hrest
  rw [List.cons_append, tokens?_sign hc, h rest hrest, Option.map_map]
  rfl

/-- A sign between two texts. -/
theorem Lexes.append_sign {c : Char} {token : Token} (h : Lexes s ts) (hc : Sign c token)
    (h' : Lexes t us) : Lexes (s ++ c :: t) (ts ++ token :: us) := by
  intro rest hrest
  rw [List.append_assoc, List.cons_append, h _ (stops_sign hc _), ← List.cons_append,
    h'.cons_sign hc rest hrest, Option.map_map]
  congr 1
  funext vs
  simp

theorem lexes_nil : Lexes [] [] := fun rest _ => by simp

theorem lexes_string (h : DenotesString s t) :
    Lexes ('"' :: s ++ ['"']) [.text (String.ofList t)] := by
  intro rest _
  have hread : string? (s ++ '"' :: rest) = some (t, rest) := string?_append h rest
  rw [List.cons_append, List.cons_append, List.append_assoc, List.singleton_append, tokens?]
  simp only [Char.reduceEq, decide_false, Bool.or_false, Bool.false_eq_true, if_false, if_true]
  split
  · next t' rest' heq =>
    rw [hread] at heq
    cases heq
    rfl
  · next heq => rw [hread] at heq; cases heq

/-- The words that are values. -/
inductive Word : List Char → Json → Prop
  | null : Word "null".toList .null
  | bool (b : Bool) : Word (if b then "true" else "false").toList (.bool b)

theorem lexes_word (h : Word t j) : Lexes t [.atom j] := by
  intro rest hrest
  have hstops : ∀ c ∈ rest.head?, Char.isAlpha c = false := fun c hc => (hrest c hc).2
  have htake : rest.takeWhile Char.isAlpha = [] := takeWhile_append_of_stops (s := []) rfl hstops
  have hdrop : rest.dropWhile Char.isAlpha = rest := dropWhile_append_of_stops (s := []) rfl hstops
  cases h with
  | null => simp [isNumeral, htake, hdrop]
  | bool b => cases b <;> simp [isNumeral, htake, hdrop]

/-! ## Numbers -/

theorem isNumeral_of_isDigit {c : Char} (h : c.isDigit = true) : isNumeral c = true := by
  simp [isNumeral, h]

theorem Figures.all_isNumeral (h : Figures s) : s.all isNumeral = true :=
  List.all_eq_true.2 fun c hc => isNumeral_of_isDigit (List.all_eq_true.1 h.2 c hc)

theorem UnsignedText.all_isNumeral (h : UnsignedText t) : t.all isNumeral = true := by
  obtain ⟨hwhole, hfraction, hexponent⟩ := h
  simp only [List.all_append, Bool.and_eq_true]
  refine ⟨?_, ?_, ?_⟩
  · cases hwhole with
    | zero => rfl
    | figures _ hds => exact hds.all_isNumeral
  · cases hfraction with
    | none => rfl
    | point hds => exact hds.all_isNumeral
  · cases hexponent with
    | none => rfl
    | exponent he hsign hds =>
      have hall : ∀ s ∈ [[], ['+'], ['-']], List.all s isNumeral = true := by decide
      have hletter : ∀ e : Char, e = 'e' ∨ e = 'E' → isNumeral e = true := by
        rintro e (rfl | rfl) <;> rfl
      simp only [List.all_cons, List.all_append, Bool.and_eq_true]
      exact ⟨hletter _ he, hall _ hsign, hds.all_isNumeral⟩

/-- A number starts with one of the characters of numbers, and has no other ones. -/
theorem NumberText.exists_cons (h : NumberText t) :
    ∃ c s, t = c :: s ∧ isNumeral c = true ∧ s.all isNumeral = true := by
  cases h with
  | unsigned h =>
    have hall := h.all_isNumeral
    cases t with
    | nil =>
      exfalso
      generalize hnil : [] = t at h
      obtain ⟨hwhole, -, -⟩ := h
      cases hwhole <;> cases hnil
    | cons c s => exact ⟨c, s, rfl, by simpa using hall⟩
  | @minus t h => exact ⟨'-', t, rfl, rfl, h.all_isNumeral⟩

theorem lexes_number (h : NumberText t) (hj : number? t = some j) : Lexes t [.atom j] := by
  intro rest hrest
  have hstops : ∀ c ∈ rest.head?, isNumeral c = false := fun c hc => (hrest c hc).1
  obtain ⟨c, s, rfl, hc, hs⟩ := h.exists_cons
  have htake : (s ++ rest).takeWhile isNumeral = s := takeWhile_append_of_stops hs hstops
  have hdrop : (s ++ rest).dropWhile isNumeral = rest := dropWhile_append_of_stops hs hstops
  have hsign : c ∉ [' ', '\n', '\r', '\t', '[', ']', '\x7b', '\x7d', ',', ':', '"'] := by
    intro hmem
    have hnone : ∀ d ∈ [' ', '\n', '\r', '\t', '[', ']', '\x7b', '\x7d', ',', ':', '"'],
        isNumeral d = false := by simp [isNumeral]
    rw [hnone c hmem] at hc
    cases hc
  simp only [List.mem_cons, List.not_mem_nil, or_false, not_or] at hsign
  simp [hsign, hc, htake, hdrop, hj]

/-! ## Values -/

/-- The tokens that a value may have, by the first of them. -/
inductive Begins : List Token → Prop
  | atom (j : Json) : Begins [.atom j]
  | text (s : String) : Begins [.text s]
  | array (ts : List Token) : Begins (.openArray :: ts)
  | object (ts : List Token) : Begins (.openObject :: ts)

/-- The tokens are those of one value, in any container and whatever is behind it. -/
structure Spelled (ts : List Token) (j : Json) : Prop where
  begins : Begins ts
  reads : ∀ outer us, value? outer (ts ++ us) = resume? j outer us

/-- The text is read as the value. -/
def ReadAs (t : List Char) (j : Json) : Prop := ∃ ts, Lexes t ts ∧ Spelled ts j

/-- An item behind the opening bracket. -/
theorem Begins.value?_openArray (h : Begins ts) (outer : List Frame) (us : List Token) :
    value? outer (.openArray :: (ts ++ us)) = value? (.array [] :: outer) (ts ++ us) := by
  rw [value?]
  cases h <;> exact fun _ heq => nomatch heq

/-- An item behind a comma. Text in front of a colon would be taken for a name. -/
theorem Begins.resume?_comma (h : Begins ts) (done : List Json) (outer : List Frame) (j : Json)
    (hus : ∀ vs, us ≠ .colon :: vs) :
    resume? j (.array done :: outer) (.comma :: (ts ++ us)) =
      value? (.array (j :: done) :: outer) (ts ++ us) := by
  rw [resume?]
  cases h with
  | text s => exact fun _ vs heq => hus vs (List.cons.inj heq).2
  | atom | array | object => exact fun _ _ heq => nomatch heq

theorem readAs_atom (h : Lexes t [.atom j]) : ReadAs t j :=
  ⟨_, h, .atom j, fun outer us => by simp⟩

theorem readAs_string (h : DenotesString s t) : ReadAs ('"' :: s ++ ['"']) (.string (String.ofList t)) :=
  ⟨_, lexes_string h, .text _, fun outer us => by simp⟩

/-! ## Arrays and objects -/

section Items

variable {α : Type} {items : List α} {text : α → List Char} {tokens : α → List Token}

/-- The tokens behind the first item of a container. -/
def tailTokens (tokens : α → List Token) (items : List α) : List Token :=
  items.flatMap fun a => .comma :: tokens a

theorem lexes_commas {a : α} (h : ∀ b ∈ a :: items, Lexes (text b) (tokens b)) :
    Lexes (commas ((a :: items).map text)) (tokens a ++ tailTokens tokens items) := by
  induction items generalizing a with
  | nil =>
    rw [tailTokens, List.flatMap_nil, List.append_nil]
    exact h a List.mem_cons_self
  | cons b items ih =>
    rw [List.forall_mem_cons] at h
    exact h.1.append_sign .comma (ih h.2)

/-- An item of a container ends at a comma or at the closing bracket. -/
theorem tailTokens_append_ne {token : Token} (htoken : token ≠ .colon) (us vs : List Token) :
    tailTokens tokens items ++ token :: us ≠ .colon :: vs := by
  cases items with
  | nil => exact fun h => htoken (List.cons.inj h).1
  | cons a items => exact fun h => nomatch h

theorem resume?_array {value : α → Json} (h : ∀ a ∈ items, Spelled (tokens a) (value a))
    (done : List Json) (j : Json) (outer : List Frame) (us : List Token) :
    resume? j (.array done :: outer) (tailTokens tokens items ++ .closeArray :: us) =
      resume? (.array (done.reverse ++ j :: items.map value)) outer us := by
  -- the value that was read last moves to those that are done when the next item is read
  induction items generalizing done j with
  | nil => simp [tailTokens]
  | cons a items ih =>
    rw [List.forall_mem_cons] at h
    calc resume? j (.array done :: outer) (tailTokens tokens (a :: items) ++ .closeArray :: us)
      _ = resume? j (.array done :: outer)
            (.comma :: (tokens a ++ (tailTokens tokens items ++ .closeArray :: us))) := by
          simp [tailTokens]
      _ = resume? (value a) (.array (j :: done) :: outer)
            (tailTokens tokens items ++ .closeArray :: us) := by
          rw [h.1.begins.resume?_comma _ _ _ (tailTokens_append_ne Token.noConfusion us), h.1.reads]
      _ = resume? (.array (done.reverse ++ j :: (a :: items).map value)) outer us := by
          rw [ih h.2]
          simp

theorem resume?_object {entry : α → String × Json}
    (h : ∀ a ∈ items, Spelled (tokens a) (entry a).2) (done : List (String × Json)) (last : String)
    (j : Json) (outer : List Frame) (us : List Token) :
    resume? j (.object done last :: outer)
        (tailTokens (fun a => .text (entry a).1 :: .colon :: tokens a) items ++ .closeObject :: us) =
      resume? (.object (Table.ofList (done.reverse ++ (last, j) :: items.map entry))) outer us := by
  induction items generalizing done last j with
  | nil => simp [tailTokens]
  | cons a items ih =>
    rw [List.forall_mem_cons] at h
    simp only [tailTokens, List.flatMap_cons, List.cons_append, List.append_assoc]
    rw [resume?, h.1.reads, ← tailTokens, ih h.2]
    simp

end Items

theorem readAs_array {items : List (List Char × Json)} (h : ∀ p ∈ items, ReadAs p.1 p.2) :
    ReadAs ('[' :: commas (items.map Prod.fst) ++ [']']) (.array (items.map Prod.snd)) := by
  choose! tokens hlexes hspelled using h
  -- an empty array is read by a rule of its own
  cases items with
  | nil =>
    refine ⟨[.openArray, .closeArray], ?_, .array _, fun outer us => ?_⟩
    · exact (lexes_nil.cons_sign .closeArray).cons_sign .openArray
    · rfl
  | cons p items =>
    refine ⟨.openArray :: (tokens p ++ tailTokens tokens items ++ [.closeArray]), ?_, .array _,
      fun outer us => ?_⟩
    · exact ((lexes_commas hlexes).append_sign .closeArray lexes_nil).cons_sign .openArray
    · rw [List.forall_mem_cons] at hspelled
      rw [List.cons_append, List.append_assoc, List.append_assoc, hspelled.1.begins.value?_openArray,
        hspelled.1.reads, List.singleton_append]
      exact resume?_array hspelled.2 [] p.2 outer us

theorem readAs_object {members : List Member}
    (hnames : ∀ m ∈ members, DenotesString m.nameText m.name)
    (h : ∀ m ∈ members, ReadAs m.text m.value) :
    ReadAs ('\x7b' :: commas (members.map Member.written) ++ ['\x7d'])
      (.object (Table.ofList (members.map Member.entry))) := by
  choose! tokens hlexes hspelled using h
  let memberTokens : Member → List Token := fun m => .text m.entry.1 :: .colon :: tokens m
  have hwritten : ∀ m ∈ members, Lexes m.written (memberTokens m) := by
    intro m hm
    have hname := lexes_string (hnames m hm)
    have hmember := hname.append_sign .colon (hlexes m hm)
    rw [List.append_assoc] at hmember
    exact hmember
  cases members with
  | nil =>
    refine ⟨[.openObject, .closeObject], ?_, .object _, fun outer us => ?_⟩
    · exact (lexes_nil.cons_sign .closeObject).cons_sign .openObject
    · rfl
  | cons m members =>
    refine ⟨.openObject :: (memberTokens m ++ tailTokens memberTokens members ++ [.closeObject]), ?_,
      .object _, fun outer us => ?_⟩
    · exact ((lexes_commas hwritten).append_sign .closeObject lexes_nil).cons_sign .openObject
    · rw [List.forall_mem_cons] at hspelled
      simp only [memberTokens, List.cons_append, List.append_assoc]
      rw [value?, hspelled.1.reads]
      exact resume?_object hspelled.2 [] m.entry.1 m.value outer us

/-! ## Texts -/

theorem readAs_of_denotes (h : Denotes t j) : ReadAs t j := by
  induction h with
  | null => exact readAs_atom (lexes_word .null)
  | bool b => exact readAs_atom (lexes_word (.bool b))
  | number h hj => exact readAs_atom (lexes_number h hj)
  | string h => exact readAs_string h
  | array _ ih => exact readAs_array ih
  | object hnames _ ih => exact readAs_object hnames ih

/-- **The reader reads the grammar.** -/
theorem parse?_of_denotes (h : Denotes t j) : parse? (String.ofList t) = some j := by
  obtain ⟨ts, hlexes, hspelled⟩ := readAs_of_denotes h
  have htokens : tokens? t = some ts := by simpa using hlexes [] stops_nil
  have hvalue : value? [] ts = some j := by simpa using hspelled.reads [] []
  rw [parse?, String.toList_ofList, htokens]
  exact hvalue

/-- A text denotes one value at most. -/
theorem Denotes.unique {i : Json} (h : Denotes t i) (h' : Denotes t j) : i = j :=
  Option.some.inj ((parse?_of_denotes h).symm.trans (parse?_of_denotes h'))

end Stencil.Json
