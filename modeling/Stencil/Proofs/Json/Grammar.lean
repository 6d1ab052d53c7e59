import Stencil.Json.Reader
import Stencil.Proofs.Pipeline.Escapes

/-!
# The grammar of JSON

The texts that are JSON, without white space between their parts, and the values that they denote.

* `Json.NumberText` are the texts of numbers: a sign or none, a whole part, a fraction and an exponent.
* `Json.DenotesString` says what the text between two quotes denotes.
* `Json.Denotes` says what a whole text denotes. Of two members of an object with one name the later
  counts.
-/

namespace Stencil.Json

/-! ## Numbers -/

/-- One or more figures. -/
def Figures (ds : List Char) : Prop := ds ≠ [] ∧ ds.all Char.isDigit = true

/-- The whole part of a number, which has no zero in front. -/
inductive WholeText : List Char → Prop
  | zero : WholeText ['0']
  | figures {d : Char} {ds : List Char} (hd : d ≠ '0') (h : Figures (d :: ds)) : WholeText (d :: ds)

/-- The fraction of a number. -/
inductive FractionText : List Char → Prop
  | none : FractionText []
  | point {ds : List Char} (h : Figures ds) : FractionText ('.' :: ds)

/-- The exponent of a number. -/
inductive ExponentText : List Char → Prop
  | none : ExponentText []
  | exponent {e : Char} {sign ds : List Char} (he : e = 'e' ∨ e = 'E')
    (hsign : sign ∈ [[], ['+'], ['-']]) (h : Figures ds) : ExponentText (e :: (sign ++ ds))

/-- A number without a sign. -/
inductive UnsignedText : List Char → Prop
  | mk {whole fraction exponent : List Char} (hwhole : WholeText whole) (hfraction : FractionText fraction)
    (hexponent : ExponentText exponent) : UnsignedText (whole ++ (fraction ++ exponent))

/-- A number. -/
inductive NumberText : List Char → Prop
  | unsigned {t : List Char} (h : UnsignedText t) : NumberText t
  | minus {t : List Char} (h : UnsignedText t) : NumberText ('-' :: t)

/-! ## Strings -/

/-- The letters behind a backslash and what they denote. -/
def stringEscapes : List (Char × Char) :=
  [('"', '"'), ('\\', '\\'), ('/', '/'), ('b', '\x08'), ('f', '\x0c'), ('n', '\n'), ('r', '\r'),
    ('t', '\t')]

/-- The text between the quotes of a string denotes a text. -/
inductive DenotesString : List Char → List Char → Prop
  | nil : DenotesString [] []
  | char {c : Char} {s t : List Char} (hquote : c ≠ '"') (hbackslash : c ≠ '\\')
    (hcontrol : 0x20 ≤ c.toNat) (h : DenotesString s t) : DenotesString (c :: s) (c :: t)
  | letter {e c : Char} {s t : List Char} (he : (e, c) ∈ stringEscapes) (h : DenotesString s t) :
    DenotesString ('\\' :: e :: s) (c :: t)
  | unit {ds s t : List Char} {c : Char} (hc : FourDigits ds c.toNat) (h : DenotesString s t) :
    DenotesString ('\\' :: 'u' :: (ds ++ s)) (c :: t)
  | pair {ds es s t : List Char} {high low : Nat} {c : Char} (hhigh : FourDigits ds high)
    (hlow : FourDigits es low) (hhighs : 0xd800 ≤ high ∧ high < 0xdc00)
    (hlows : 0xdc00 ≤ low ∧ low < 0xe000)
    (hc : c.toNat = 0x10000 + (high - 0xd800) * 0x400 + (low - 0xdc00)) (h : DenotesString s t) :
    DenotesString ('\\' :: 'u' :: (ds ++ '\\' :: 'u' :: (es ++ s))) (c :: t)

/-! ## Values -/

/-- Texts with commas between them. -/
def commas : List (List Char) → List Char
  | [] => []
  | [t] => t
  | t :: ts => t ++ ',' :: commas ts

/-- A member of an object, with the texts of its name and its value. -/
structure Member where
  nameText : List Char
  name : List Char
  text : List Char
  value : Json

namespace Member

/-- How a member is written. -/
def written (m : Member) : List Char := '"' :: m.nameText ++ '"' :: ':' :: m.text

/-- The entry that a member makes. -/
def entry (m : Member) : String × Json := (String.ofList m.name, m.value)

end Member

/-- The text denotes the value. -/
inductive Denotes : List Char → Json → Prop
  | null : Denotes "null".toList .null
  | bool (b : Bool) : Denotes (if b then "true" else "false").toList (.bool b)
  | number {t : List Char} {j : Json} (h : NumberText t) (hj : number? t = some j) : Denotes t j
  | string {s t : List Char} (h : DenotesString s t) :
    Denotes ('"' :: s ++ ['"']) (.string (String.ofList t))
  | array {items : List (List Char × Json)} (h : ∀ p ∈ items, Denotes p.1 p.2) :
    Denotes ('[' :: commas (items.map Prod.fst) ++ [']']) (.array (items.map Prod.snd))
  | object {members : List Member} (hnames : ∀ m ∈ members, DenotesString m.nameText m.name)
    (h : ∀ m ∈ members, Denotes m.text m.value) :
    Denotes ('\x7b' :: commas (members.map Member.written) ++ ['\x7d'])
      (.object (Table.ofList (members.map Member.entry)))

end Stencil.Json
