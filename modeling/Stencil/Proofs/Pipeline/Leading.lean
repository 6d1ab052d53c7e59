import Stencil.Delimited.Printer
import Stencil.Proofs.Pipeline.RoundTrip
import Stencil.Proofs.Text.Search

/-!
# How canonical texts begin and end

The text of a pipeline stands between spaces without losing any of it, and its first word or token
tells what begins it.

* `Pipeline.tight_text` says that the text neither begins nor ends with white space.
* `Pipeline.text_cases` says that it begins with a function, with a constant that is a word, or with a
  token that is none.
* `parseTemplateCall_text` and `parseTemplateCall_templateText` tell the statements that run another
  template from pipelines.
-/

namespace Stencil

open Stencil.Expr
open Text (isSpace IsWord Tight)
open Lexed (isWordStart isWordPart word)

/-! ## Ends -/

/-- The text ends in a character that is no white space. -/
def EndsTight (s : List Char) : Prop := ∃ t c, s = t ++ [c] ∧ isSpace c = false

theorem endsTight_single {c : Char} (hc : isSpace c = false) : EndsTight [c] := ⟨[], c, rfl, hc⟩

theorem EndsTight.append {t : List Char} (h : EndsTight t) (s : List Char) : EndsTight (s ++ t) := by
  obtain ⟨u, c, rfl, hc⟩ := h
  exact ⟨s ++ u, c, by simp, hc⟩

theorem EndsTight.cons {t : List Char} (h : EndsTight t) (c : Char) : EndsTight (c :: t) :=
  h.append [c]

theorem endsTight_of_isWord {s : List Char} (hne : s ≠ []) (h : IsWord s) : EndsTight s :=
  ⟨s.dropLast, s.getLast hne, (List.dropLast_concat_getLast hne).symm, h _ (List.getLast_mem hne)⟩

/-- No character of an identifier is white space. -/
theorem isWord_identifier {name : String} (h : isIdentifier name = true) :
    IsWord name.toList := by
  obtain ⟨c, s, heq, hc, hs⟩ := exists_of_isIdentifier h
  rw [heq]
  exact List.forall_mem_cons.2 ⟨isSpace_of_isWordPart (isWordPart_iff.2 (.inl hc)),
    fun d hd => isSpace_of_isWordPart (List.all_eq_true.1 hs d hd)⟩

theorem toList_ne_nil_of_isIdentifier {name : String} (h : isIdentifier name = true) :
    name.toList ≠ [] := by
  obtain ⟨c, s, heq, -, -⟩ := exists_of_isIdentifier h
  rw [heq]
  exact List.cons_ne_nil c s

theorem endsTight_identifier {name : String} (h : isIdentifier name = true) :
    EndsTight name.toList :=
  endsTight_of_isWord (toList_ne_nil_of_isIdentifier h) (isWord_identifier h)

theorem EndsTight.fields {names : List String} (hnames : names.all isIdentifier = true) :
    ∀ {s : List Char}, EndsTight s → EndsTight (s ++ fieldsText names) := by
  induction names with
  | nil =>
    intro s h
    rwa [fieldsText, List.flatMap_nil, List.append_nil]
  | cons name names ih =>
    intro s h
    rw [List.all_cons, Bool.and_eq_true] at hnames
    have hname : EndsTight (s ++ '.' :: name.toList) :=
      ((endsTight_identifier hnames.1).cons '.').append s
    have htext : s ++ fieldsText (name :: names) =
        (s ++ '.' :: name.toList) ++ fieldsText names := by simp [fieldsText]
    rw [htext]
    exact ih hnames.2 hname

theorem endsTight_variable {name : String} (h : isVariableName name = true) :
    EndsTight ('$' :: name.toList) := by
  unfold isVariableName at h
  rcases Bool.or_eq_true _ _ ▸ h with hempty | h
  · obtain rfl := of_decide_eq_true hempty
    exact endsTight_single rfl
  · exact (endsTight_identifier h).cons '$'

theorem endsTight_digits (n : Nat) : EndsTight (Nat.toDigits 10 n) := by
  obtain ⟨hdigits, c, s, hds, -⟩ := exists_toDigits_eq_cons n
  refine endsTight_of_isWord (by simp [hds]) fun d hd => ?_
  exact isSpace_of_isWordPart (isWordPart_iff.2 (.inr (List.all_eq_true.1 hdigits d hd)))

theorem endsTight_int (n : Int) : EndsTight (toString n).toList := by
  cases n with
  | ofNat m =>
    rw [toList_toString_ofNat]
    exact endsTight_digits m
  | negSucc m =>
    rw [toList_toString_negSucc]
    exact (endsTight_digits (m + 1)).cons '-'

theorem endsTight_literal {v : Value} (h : v.isLiteral = true) : EndsTight v.literal := by
  match v with
  | .none => exact endsTight_of_isWord (by decide) (by decide)
  | .bool true => exact endsTight_of_isWord (by decide) (by decide)
  | .bool false => exact endsTight_of_isWord (by decide) (by decide)
  | .int n => exact endsTight_int n
  | .string s _ => exact ((endsTight_single rfl).append _).cons '"'
  | .undefined => cases h
  | .float _ => cases h
  | .list _ => cases h
  | .map _ => cases h
  | .fallback _ => cases h

variable {room : Nat}

theorem endsTight_text {x : Expr} (hx : x.isFormed Value.isLiteral room = true) :
    EndsTight x.text := by
  match x with
  | .dot => exact endsTight_single rfl
  | .field [] => simp [isFormed] at hx
  | .field (name :: names) =>
    simp only [isFormed, List.all_cons, Bool.and_eq_true] at hx
    exact ((endsTight_identifier hx.2.1).cons '.').fields hx.2.2
  | .variable name fields =>
    simp only [isFormed, Bool.and_eq_true] at hx
    exact (endsTight_variable hx.1).fields hx.2
  | .call name =>
    simp only [isFormed, Bool.and_eq_true] at hx
    exact endsTight_identifier hx.1
  | .const v => exact endsTight_literal hx
  | .group ⟨targets, assigns, cs⟩ fields =>
    simp only [isFormed, Bool.and_eq_true] at hx
    have hparen : EndsTight (')' :: fieldsText fields) := (endsTight_single (c := ')') rfl).fields hx.2
    exact ((hparen.append _).append _).cons '('

theorem endsTight_commandText {c : List Expr} (hne : c ≠ [])
    (hc : operandsFormed Value.isLiteral room c = true) : EndsTight (commandText c) := by
  induction c with
  | nil => exact absurd rfl hne
  | cons x xs ih =>
    rw [operandsFormed, Bool.and_eq_true] at hc
    cases xs with
    | nil => exact endsTight_text hc.1
    | cons y ys => exact ((ih (List.cons_ne_nil _ _) hc.2).cons ' ').append _

theorem endsTight_commandsText {cs : List (List Expr)} (hne : cs ≠ [])
    (hcs : commandsFormed Value.isLiteral room cs = true) : EndsTight (commandsText cs) := by
  induction cs with
  | nil => exact absurd rfl hne
  | cons c cs ih =>
    simp only [commandsFormed, Bool.and_eq_true] at hcs
    cases cs with
    | nil => exact endsTight_commandText (commandFormed_ne_nil hcs.1.1) hcs.1.2
    | cons c' cs => exact ((((ih (List.cons_ne_nil _ _) hcs.2).cons ' ').cons '|').cons ' ').append _

/-! ## Beginnings -/

/-- What a text begins with is no word: it is another token. -/
def LeadsOther (s : List Char) : Prop :=
  ∃ c t, ∃ l : Lexed (c :: t), s = c :: t ∧ isSpace c = false ∧ isWordStart c = false ∧ c ≠ '/' ∧
    Lexed.read c t = .ok l ∧ ∀ w, l.token ≠ .word w

theorem leadsOther_of_spells {token : Token} {c : Char} {spelling rest : List Char}
    (h : Spells token (c :: spelling) rest) (htoken : ∀ w, token ≠ .word w)
    (hc : isWordStart c = false) (hslash : c ≠ '/') : LeadsOther (c :: spelling ++ rest) := by
  obtain ⟨d, t, l, heq, hd, hl, rfl, rfl⟩ := h
  obtain rfl : c = d := (List.cons.inj heq).1
  exact ⟨c, t, l, heq, hd, hc, hslash, hl, htoken⟩

/-- The literal of an integer begins with a digit or a dash. -/
theorem exists_int_eq_cons (n : Int) :
    ∃ c s, (toString n).toList = c :: s ∧ isWordStart c = false ∧ c ≠ '/' := by
  cases n with
  | ofNat m =>
    obtain ⟨-, c, s, hds, hc⟩ := exists_toDigits_eq_cons m
    refine ⟨c, s, (toList_toString_ofNat m).trans hds, ?_, ne_of_class hc rfl⟩
    rw [← Bool.not_eq_true]
    intro hword
    rw [isDigit_of_isWordStart hword] at hc
    cases hc
  | negSucc m => exact ⟨'-', _, toList_toString_negSucc m, rfl, by decide⟩

/-- What a text begins with is a word, up to a space. -/
def LeadsWord (name : String) (s : List Char) : Prop :=
  isIdentifier name = true ∧ ∃ rest, s = name.toList ++ rest ∧ ∀ c ∈ rest.head?, c = ' '

/-- The operand begins its text with a word: it is a function, or a constant that is a word. -/
def Expr.LeadsWith (x : Expr) (name : String) : Prop := x = .call name ∨ isConstantWord name = true

/-- The literal of a constant begins with a word that denotes one, or with a token that is no word. -/
theorem literal_leads {v : Value} (hv : v.isLiteral = true) {rest : List Char}
    (hrest : ∀ c ∈ rest.head?, c = ' ') :
    (∃ name, isConstantWord name = true ∧ LeadsWord name (v.literal ++ rest)) ∨
      LeadsOther (v.literal ++ rest) := by
  match v with
  | .none => exact .inl ⟨"nil", rfl, rfl, rest, rfl, hrest⟩
  | .bool true => exact .inl ⟨"true", rfl, rfl, rest, rfl, hrest⟩
  | .bool false => exact .inl ⟨"false", rfl, rfl, rest, rfl, hrest⟩
  | .int n =>
    obtain ⟨c, s, heq, hword, hslash⟩ := exists_int_eq_cons n
    have hspells := spells_int (of_decide_eq_true hv) fun c hc => .inl (hrest c hc)
    rw [heq] at hspells
    change _ ∨ LeadsOther ((toString n).toList ++ rest)
    rw [heq]
    exact .inr (leadsOther_of_spells hspells nofun hword hslash)
  | .string s safe =>
    rcases spells_text s rest with hspells | hspells
    · exact .inr (leadsOther_of_spells hspells (fun _ h => by cases h) rfl (by decide))
    · exact .inr (leadsOther_of_spells hspells (fun _ h => by cases h) rfl (by decide))
  | .undefined => cases hv
  | .float _ => cases hv
  | .list _ => cases hv
  | .map _ => cases hv
  | .fallback _ => cases hv

theorem text_leads {x : Expr} (hx : x.isFormed Value.isLiteral room = true) {rest : List Char}
    (hrest : ∀ c ∈ rest.head?, c = ' ') :
    (∃ name, x.LeadsWith name ∧ LeadsWord name (x.text ++ rest)) ∨ LeadsOther (x.text ++ rest) := by
  have hoperand : EndsOperand rest := fun c hc => .inl (hrest c hc)
  match x with
  | .dot =>
    exact .inr (leadsOther_of_spells (spells_dot hoperand.endsWord) nofun rfl (by decide))
  | .field [] => simp [isFormed] at hx
  | .field (name :: names) =>
    simp only [isFormed, List.all_cons, Bool.and_eq_true] at hx
    have hspells := spells_field hx.2.1 (endsWord_fieldsText hoperand.endsWord names)
    rw [field_text_append]
    exact .inr (leadsOther_of_spells hspells nofun rfl (by decide))
  | .variable name fields =>
    simp only [isFormed, Bool.and_eq_true] at hx
    have hspells := spells_variable hx.1 (endsWord_fieldsText hoperand.endsWord fields)
    rw [variable_text_append]
    exact .inr (leadsOther_of_spells hspells nofun rfl (by decide))
  | .call name =>
    simp only [isFormed, Bool.and_eq_true] at hx
    exact .inl ⟨name, .inl rfl, hx.1, rest, rfl, hrest⟩
  | .const v =>
    rcases literal_leads hx hrest with ⟨name, hname, hword⟩ | hother
    · exact .inl ⟨name, .inr hname, hword⟩
    · exact .inr hother
  | .group ⟨targets, assigns, cs⟩ fields =>
    exact .inr ⟨'(', _, _, rfl, rfl, rfl, by decide, rfl, nofun⟩

/-! ## Pipelines -/

/-- The commands of a text begin with its first operand. -/
theorem commandsText_eq (x : Expr) (xs : List Expr) (cs : List (List Expr)) :
    ∃ rest, commandsText ((x :: xs) :: cs) = x.text ++ rest ∧ ∀ c ∈ rest.head?, c = ' ' := by
  have hcommand : ∃ rest, commandText (x :: xs) = x.text ++ rest ∧ ∀ c ∈ rest.head?, c = ' ' := by
    cases xs with
    | nil => exact ⟨[], by simp [commandText], by simp⟩
    | cons y ys => exact ⟨_, rfl, by simp⟩
  obtain ⟨rest, htext, hrest⟩ := hcommand
  cases cs with
  | nil => exact ⟨rest, htext, hrest⟩
  | cons c cs =>
    refine ⟨rest ++ ' ' :: '|' :: ' ' :: commandsText (c :: cs), ?_, ?_⟩
    · rw [commandsText, htext, List.append_assoc]
      exact fun h => nomatch h
    · cases rest with
      | nil => simp
      | cons d rest => exact hrest

/-- Variables in front of a pipeline begin with the first one. -/
theorem targetsText_eq (assigns : Bool) (a : String) (targets : List String) :
    ∃ c rest, targetsText assigns (a :: targets) = '$' :: a.toList ++ c :: rest ∧
      isWordPart c = false := by
  have htext : targetsText assigns (a :: targets) =
      List.intercalate [',', ' '] ((a :: targets).map fun name => '$' :: name.toList) ++
        (if assigns then " = " else " := ").toList := rfl
  rw [htext]
  cases targets with
  | nil =>
    have hsign : ∃ rest, (if assigns then " = " else " := ").toList = ' ' :: rest := by
      cases assigns <;> exact ⟨_, rfl⟩
    obtain ⟨rest, hsign⟩ := hsign
    refine ⟨' ', rest, ?_, rfl⟩
    rw [hsign]
    simp
  | cons b targets =>
    refine ⟨',', ' ' :: (List.intercalate [',', ' '] ((b :: targets).map fun name =>
      '$' :: name.toList) ++ (if assigns then " = " else " := ").toList), ?_, rfl⟩
    simp

namespace Pipeline

variable {p : Pipeline}

/-- **What the text of a pipeline begins with**: the function that it begins with, a constant that is
a word, or a token that is no word. -/
theorem text_cases (hp : p.isFormed Value.isLiteral room = true) :
    (∃ name, (p.leadingFunction? = some name ∨ isConstantWord name = true) ∧
      LeadsWord name p.text) ∨ LeadsOther p.text := by
  obtain ⟨targets, assigns, cs⟩ := p
  simp only [Pipeline.isFormed, Bool.and_eq_true] at hp
  obtain ⟨⟨htargets, hcs⟩, hformed⟩ := hp
  cases targets with
  | nil =>
    obtain ⟨c, cs, rfl⟩ := List.exists_cons_of_ne_nil (by simpa using hcs : cs ≠ [])
    rw [commandsFormed, Bool.and_eq_true, Bool.and_eq_true] at hformed
    obtain ⟨x, xs, rfl⟩ := List.exists_cons_of_ne_nil (commandFormed_ne_nil hformed.1.1)
    rw [operandsFormed, Bool.and_eq_true] at hformed
    obtain ⟨rest, htext, hrest⟩ := commandsText_eq x xs cs
    have hwhole : Pipeline.text ⟨[], assigns, (x :: xs) :: cs⟩ = x.text ++ rest := by
      rw [Pipeline.text, targetsText, List.nil_append, htext]
    rw [hwhole]
    rcases text_leads hformed.1.2.1 hrest with ⟨name, hname | hconstant, hword⟩ | hother
    · exact .inl ⟨name, .inl (hname ▸ rfl), hword⟩
    · exact .inl ⟨name, .inr hconstant, hword⟩
    · exact .inr hother
  | cons a targets =>
    simp only [targetsFormed, List.all_cons, Bool.and_eq_true] at htargets
    obtain ⟨c, rest, htext, hc⟩ := targetsText_eq assigns a targets
    have hspells := spells_variable htargets.1.2.1 (endsWord_cons hc (rest ++ commandsText cs))
    have hwhole : Pipeline.text ⟨a :: targets, assigns, cs⟩ =
        '$' :: a.toList ++ c :: (rest ++ commandsText cs) := by
      rw [Pipeline.text, htext, List.append_assoc, List.cons_append]
      rfl
    rw [hwhole]
    exact .inr (leadsOther_of_spells hspells (fun _ h => by cases h) rfl (by decide))

/-- **The text of a pipeline has no white space at its ends.** -/
theorem tight_text (hp : p.isFormed Value.isLiteral room = true) : Tight p.text := by
  refine ⟨?_, ?_⟩
  · rcases text_cases hp with ⟨name, -, hname, rest, htext, -⟩ | ⟨c, t, l, htext, hc, -⟩
    · obtain ⟨c, s, heq, hc, -⟩ := exists_of_isIdentifier hname
      rw [htext, heq]
      exact ⟨c, s ++ rest, rfl, isSpace_of_isWordPart (isWordPart_iff.2 (.inl hc))⟩
    · exact ⟨c, t, htext, hc⟩
  · simp only [Pipeline.isFormed, Bool.and_eq_true] at hp
    exact (endsTight_commandsText (by simpa using hp.1.2) hp.2).append _

/-- A text that begins with no slash is no comment. -/
theorem opensComment_text (hp : p.isFormed Value.isLiteral room = true) :
    Delimited.opensComment p.text = false := by
  have hslash : ∀ c s, c ≠ '/' → Delimited.opensComment (c :: s) = false := by
    intro c s hc
    simp [Delimited.opensComment, Text.startsWith, Text.after?, Ne.symm hc]
  rcases text_cases hp with ⟨name, -, hname, rest, htext, -⟩ | ⟨c, t, l, htext, -, -, hc, -⟩
  · obtain ⟨c, s, heq, hc, -⟩ := exists_of_isIdentifier hname
    rw [htext, heq]
    exact hslash c _ (ne_of_class hc rfl)
  · rw [htext]
    exact hslash c t hc

end Pipeline

/-! ## Statements that run another template -/

/-- A token is the next one where it is spelled. -/
theorem next_of_spells {token : Token} {spelling rest : List Char} (h : Spells token spelling rest)
    (offset : UInt32) : ∃ start stop, Lexeme.next offset (spelling ++ rest) =
      .ok (some (⟨token, start, stop⟩, rest)) := by
  obtain ⟨c, s, l, heq, hc, hl, rfl, rfl⟩ := h
  rw [heq]
  exact ⟨_, _, Lexeme.next_token hc offset hl⟩

theorem parseTemplateCall_of_next {s rest : List Char} {l : Lexeme}
    (h : Lexeme.next 0 s = .ok (some (l, rest))) (hl : l.token ≠ .word "template") :
    parseTemplateCall s = .ok none := by
  obtain ⟨token, start, stop⟩ := l
  unfold parseTemplateCall
  simp only [h, bind, Except.bind]
  split
  · next heq =>
    cases heq
    exact absurd rfl hl
  · rfl

/-- **A pipeline runs no other template**, unless it begins with a function of that name. -/
theorem parseTemplateCall_text {p : Pipeline} (hp : p.isFormed Value.isLiteral room = true)
    (hname : p.leadingFunction? ≠ some "template") : parseTemplateCall p.text = .ok none := by
  rcases Pipeline.text_cases hp with ⟨name, hleads, hident, rest, htext, hrest⟩ |
    ⟨c, t, l, htext, hc, -, -, hl, htoken⟩
  · have hends : EndsWord rest := fun c hc => by rw [hrest c hc]; rfl
    obtain ⟨start, stop, hnext⟩ := next_of_spells (spells_word hident hends) 0
    rw [htext]
    refine parseTemplateCall_of_next hnext fun heq => ?_
    cases heq
    rcases hleads with hleads | hleads
    · exact hname hleads
    · cases hleads
  · rw [htext]
    exact parseTemplateCall_of_next (Lexeme.next_token hc 0 hl) (htoken _)

theorem isBlank_of_tight {s : List Char} (h : Tight s) : Text.isBlank s = false := by
  obtain ⟨⟨c, t, rfl, hc⟩, -⟩ := h
  rw [Text.isBlank_cons, hc, Bool.false_and]

/-- Behind the word and the name of a call there is its pipeline, or nothing. -/
theorem parseTemplateCall_call {s s' rest : List Char} {start stop : UInt32} {token : Token}
    (h : Lexeme.next 0 s = .ok (some (⟨.word "template", start, stop⟩, s'))) {start' stop' : UInt32}
    (h' : Lexeme.next 0 s' = .ok (some (⟨token, start', stop'⟩, rest))) {name : String}
    (htoken : token = .string name ∨ token = .verbatim name) :
    parseTemplateCall s =
      if Text.isBlank rest then .ok (some { name, pipeline := none })
      else (parsePipeline rest).map fun p => some { name, pipeline := some p } := by
  unfold parseTemplateCall
  rcases htoken with rfl | rfl
  · simp only [h, h', bind, Except.bind, pure, Except.pure]
    cases parsePipeline rest <;> rfl
  · simp only [h, h', bind, Except.bind, pure, Except.pure]
    cases parsePipeline rest <;> rfl

/-- **A call of another template is read back** with its pipeline. -/
theorem parseTemplateCall_templateText (name : String) {p : Option Pipeline}
    (hp : p.all Node.isPlain = true) :
    parseTemplateCall (Node.templateText name p) = .ok (some { name, pipeline := p }) := by
  have htemplate : ∀ s, Spells (.word "template") "template".toList (' ' :: s) :=
    fun s => spells_word rfl (endsWord_cons rfl s)
  obtain ⟨start, stop, hnext⟩ := next_of_spells
    (htemplate (Value.textLiteral name ++ p.toList.flatMap fun p => ' ' :: p.text)) 0
  have hname : ∃ token start stop, (token = .string name ∨ token = .verbatim name) ∧
      Lexeme.next 0 (' ' :: (Value.textLiteral name ++ p.toList.flatMap fun p => ' ' :: p.text)) =
        .ok (some (⟨token, start, stop⟩, p.toList.flatMap fun p => ' ' :: p.text)) := by
    rw [Lexeme.next_space rfl]
    rcases spells_text name (p.toList.flatMap fun p => ' ' :: p.text) with hspells | hspells
    · obtain ⟨start, stop, hnext⟩ := next_of_spells hspells _
      exact ⟨_, start, stop, .inl rfl, hnext⟩
    · obtain ⟨start, stop, hnext⟩ := next_of_spells hspells _
      exact ⟨_, start, stop, .inr rfl, hnext⟩
  obtain ⟨token, start', stop', htoken, hnext'⟩ := hname
  refine (parseTemplateCall_call hnext hnext' htoken).trans ?_
  cases p with
  | none => rfl
  | some p =>
    have hparse : parsePipeline (' ' :: p.text) = .ok p :=
      parsePipeline_eq_ok_iff.2 (parsePipeline_eq_ok_iff.1 (parsePipeline_text hp)).space
    have hblank := isBlank_of_tight (Pipeline.tight_text hp)
    simp [Text.isBlank_cons, hblank, hparse, Except.map]

theorem tight_templateText (name : String) {p : Option Pipeline} (hp : p.all Node.isPlain = true) :
    Tight (Node.templateText name p) := by
  have hquote : EndsTight ['"'] := endsTight_single rfl
  have hname : EndsTight (Value.textLiteral name) := (hquote.append _).cons '"'
  have hbehind : EndsTight (Value.textLiteral name ++ p.toList.flatMap fun p => ' ' :: p.text) := by
    cases p with
    | none => simpa using hname
    | some p =>
      have hend : EndsTight p.text := (Pipeline.tight_text hp).2
      simpa using (hend.cons ' ').append (Value.textLiteral name)
  exact ⟨⟨'t', _, rfl, rfl⟩, hbehind.append "template ".toList⟩

end Stencil
