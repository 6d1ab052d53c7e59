import Stencil.Proofs.Pipeline.Spelling

/-!
# The pipelines that statements denote

Whatever a statement is, the pipeline that is read from it is well formed: its commands are not empty,
its names are identifiers, and its groups are nested as deep as is allowed at most.

* `Lexed.read_sound` says what every token that is read is like.
* `StackFormed` is the invariant of the drafts that are open at a token, and `read_isFormed` the
  induction over the tokens that keeps it.
* `isFormed_of_parsePipeline` concludes for a whole statement, and `getLast?_of_parsePipeline` and
  `getLast?_of_parseTemplateCall` say that no statement ends in a backslash.
-/

namespace Stencil

open Stencil.Expr
open Lexed (isWordStart isWordPart word)

/-! ## Tokens -/

/-- The names of a token are identifiers, and its integer has 64 bits. -/
def Token.IsFormed : Token → Prop
  | .field name => isIdentifier name = true
  | .variable name => isVariableName name = true
  | .word name => isIdentifier name = true
  | .int n => (Value.int n).isConstant = true
  | _ => True

theorem isIdentifier_ofList {c : Char} {s : List Char} (hc : isWordStart c = true) :
    isIdentifier (String.ofList (word (c :: s))) = true := by
  rw [word, if_pos hc, isIdentifier, String.toList_ofList]
  exact Bool.and_eq_true_iff.2 ⟨hc, List.all_takeWhile⟩

theorem word_cases (s : List Char) :
    word s = [] ∨ isIdentifier (String.ofList (word s)) = true := by
  cases s with
  | nil => exact .inl rfl
  | cons c s =>
    cases hc : isWordStart c with
    | false => exact .inl (by simp [word, hc])
    | true => exact .inr (isIdentifier_ofList hc)

theorem isWordPart_of_mem_word {s : List Char} {c : Char} (hc : c ∈ word s) :
    isWordPart c = true := by
  cases s with
  | nil => cases hc
  | cons d s =>
    cases hd : isWordStart d with
    | false => simp [word, hd] at hc
    | true =>
      rw [word, if_pos hd] at hc
      rcases List.mem_cons.1 hc with rfl | hc
      · exact isWordPart_iff.2 (.inl hd)
      · exact List.all_eq_true.1 List.all_takeWhile c hc

namespace Lexed

/-- What every token that is read is like: it is well formed, and its spelling ends in no
backslash. -/
structure Sound {s : List Char} (l : Lexed s) : Prop where
  token : l.token.IsFormed
  last : l.spelling.getLast? ≠ some '\\'

theorem sound_single {token : Token} {c : Char} (s : List Char) (ht : token.IsFormed)
    (hc : c ≠ '\\') : (single token c s).Sound :=
  ⟨ht, by simpa [single] using hc⟩

theorem getLast?_cons_word {c : Char} (hc : c ≠ '\\') (s : List Char) :
    (c :: word s).getLast? ≠ some '\\' := by
  intro h
  rcases List.mem_cons.1 (List.mem_of_getLast? h) with heq | hmem
  · exact hc heq.symm
  · exact ne_of_class (isWordPart_of_mem_word hmem) (by rfl) rfl

theorem sound_marked {token : String → Token} {c : Char} {s : List Char}
    (ht : (token (String.ofList (word s))).IsFormed) (hc : c ≠ '\\') : (marked token c s).Sound :=
  ⟨ht, getLast?_cons_word hc s⟩

theorem sound_dotted (s : List Char) : (dotted '.' s).Sound := by
  unfold dotted
  split
  · exact sound_single s trivial (by decide)
  · next hne => exact sound_marked ((word_cases s).resolve_left hne) (by decide)

theorem sound_variable (s : List Char) : (marked .variable '$' s).Sound := by
  refine sound_marked ?_ (by decide)
  change isVariableName _ = true
  rcases word_cases s with h | h
  · rw [h]
    rfl
  · simp [isVariableName, h]

end Lexed

namespace Numeral

/-- No character of a number is a backslash. -/
theorem not_mem_spelling_scan {sign : List Char} (hsign : '\\' ∉ sign) (s : List Char) :
    '\\' ∉ (scan sign s).spelling := by
  have hbody : ∀ (base : Nat) (t : List Char) (last : Char), '\\' ∉ scanBody base last t := by
    intro base t
    induction t with
    | nil => simp [scanBody]
    | cons c t ih =>
      intro last
      unfold scanBody
      split
      · next hc =>
        rw [List.mem_cons, not_or]
        refine ⟨?_, ih c⟩
        rintro rfl
        simp [continues] at hc
      · simp
  have hmark : '\\' ∉ (scanMark s).1 := by
    unfold scanMark
    split
    · next c t =>
      split
      · next base hbase =>
        rw [List.mem_cons, List.mem_singleton, not_or]
        refine ⟨by decide, ?_⟩
        rintro rfl
        cases hbase
      · simp
    · simp
  simp only [spelling, scan, List.mem_append, not_or]
  exact ⟨hsign, hmark, hbody _ _ _⟩

/-- The value of a number is a floating point number or an integer of 64 bits. -/
theorem isFormed_token {n : Numeral} {t : Token} (h : n.token = .ok t) : t.IsFormed := by
  unfold token at h
  dsimp only at h
  split at h
  · cases h
  · split at h
    · split at h
      · cases h
        trivial
      · cases h
    · split at h
      · next v _ =>
        split at h
        · next hv =>
          cases h
          change (Value.int _).isConstant = true
          unfold Value.isConstant
          simp only [Bool.and_eq_true, decide_eq_true_eq]
          split <;> omega
        · cases h
      · cases h

end Numeral

namespace Lexed

theorem sound_signed {c : Char} {s : List Char} {l : Lexed (c :: s)} (hc : c ≠ '\\')
    (h : signed c s = .ok l) : l.Sound := by
  unfold signed at h
  obtain ⟨t, ht, h⟩ := Outcome.bind_eq_ok.1 h
  cases h
  refine ⟨Numeral.isFormed_token ht, fun hlast => ?_⟩
  refine Numeral.not_mem_spelling_scan ?_ s (List.mem_of_getLast? hlast)
  simpa using hc.symm

theorem sound_unsigned {c : Char} {s : List Char} {hs : Numeral.starts (c :: s) = true}
    {l : Lexed (c :: s)} (h : unsigned c s hs = .ok l) : l.Sound := by
  unfold unsigned at h
  obtain ⟨t, ht, h⟩ := Outcome.bind_eq_ok.1 h
  cases h
  refine ⟨Numeral.isFormed_token ht, fun hlast => ?_⟩
  exact Numeral.not_mem_spelling_scan (by simp) (c :: s) (List.mem_of_getLast? hlast)

theorem getLast?_concat_ne {c : Char} (hc : c ≠ '\\') {d : Char} {s : List Char} :
    (d :: (s ++ [c])).getLast? ≠ some '\\' := by
  rw [← List.cons_append, List.getLast?_concat]
  simpa using hc

theorem isFormed_stringToken {body : List Char} {t : Token} (h : stringToken body = .ok t) :
    t.IsFormed := by
  unfold stringToken at h
  split at h
  · obtain ⟨cs, -, h⟩ := Outcome.bind_eq_ok.1 h
    cases h
    trivial
  · cases h
    trivial

theorem sound_quoted {s : List Char} {l : Lexed ('"' :: s)} (h : quoted s = .ok l) : l.Sound := by
  unfold quoted at h
  split at h
  · obtain ⟨t, ht, h⟩ := Outcome.bind_eq_ok.1 h
    cases h
    exact ⟨isFormed_stringToken ht, getLast?_concat_ne (by decide)⟩
  · cases h

theorem sound_raw {c : Char} {s : List Char} {l : Lexed (c :: s)} (hc : c ≠ '\\')
    (h : raw c s = .ok l) : l.Sound := by
  unfold raw at h
  split at h
  · cases h
    exact ⟨trivial, getLast?_concat_ne hc⟩
  · cases h

theorem sound_colon {s : List Char} {l : Lexed (':' :: s)} (h : colon ':' s = .ok l) : l.Sound := by
  unfold colon at h
  split at h
  · cases h
    exact ⟨trivial, by simp⟩
  · cases h

theorem sound_sign {token : Token} {c : Char} (s : List Char) (h : signToken? c = some token) :
    (single token c s).Sound := by
  refine sound_single s ?_ ?_
  · unfold signToken? at h
    split at h <;> cases h <;> trivial
  · rintro rfl
    cases h

/-- **Every token that is read** is well formed, and its spelling ends in no backslash. -/
theorem read_sound {c : Char} {s : List Char} {l : Lexed (c :: s)} (h : read c s = .ok l) :
    l.Sound := by
  cases rule c s with
  | sign hc =>
    rw [read_sign hc] at h
    cases h
    exact sound_sign s hc
  | colon hc =>
    subst hc
    exact sound_colon h
  | fraction hc hdigit =>
    subst hc
    rw [read_fraction hdigit] at h
    exact sound_unsigned h
  | dotted hc hdigit =>
    subst hc
    rw [read_dotted hdigit] at h
    cases h
    exact sound_dotted s
  | dollar hc =>
    subst hc
    cases h
    exact sound_variable s
  | quoted hc =>
    subst hc
    exact sound_quoted h
  | raw hc =>
    subst hc
    exact sound_raw (by decide) h
  | digit hc =>
    rw [read_digit hc] at h
    exact sound_unsigned h
  | signed hc hstarts =>
    rw [read_signed hc hstarts] at h
    refine sound_signed ?_ h
    rintro rfl
    simp at hc
  | word hc =>
    rw [read_wordStart hc] at h
    cases h
    refine ⟨isIdentifier_ofList hc, fun hlast => ?_⟩
    have hmem : '\\' ∈ word (c :: s) := List.mem_of_getLast? hlast
    exact ne_of_class (isWordPart_of_mem_word hmem) (by rfl) rfl
  | other hc =>
    rw [hc s rfl] at h
    cases h

end Lexed

theorem isFormed_of_reads {gap : Option UInt32} {s : List Char} {ts : List Glued}
    (h : Reads gap s ts) : ∀ t ∈ ts, t.token.IsFormed := by
  induction h with
  | done => simp
  | space _ _ ih => exact ih
  | token l _ hl _ ih => exact List.forall_mem_cons.2 ⟨(Lexed.read_sound hl).token, ih⟩

/-- Behind a token there is the end of its spelling, or more text. -/
theorem getLast?_of_lexed {s : List Char} {l : Lexed s} (hl : l.Sound)
    (hrest : l.rest.getLast? ≠ some '\\') : s.getLast? ≠ some '\\' := by
  rw [← l.append_eq, List.getLast?_append]
  cases h : l.rest.getLast? with
  | none => exact hl.last
  | some c =>
    rw [h] at hrest
    exact hrest

theorem getLast?_cons_space {c : Char} {s : List Char} (hc : Text.isSpace c = true)
    (hs : s.getLast? ≠ some '\\') : (c :: s).getLast? ≠ some '\\' := by
  rw [List.getLast?_cons]
  cases h : s.getLast? with
  | none =>
    rintro heq
    obtain rfl : c = '\\' := by simpa using heq
    cases hc
  | some d =>
    rw [h] at hs
    simpa using hs

/-- A text that has tokens ends in no backslash. -/
theorem getLast?_of_reads {gap : Option UInt32} {s : List Char} {ts : List Glued}
    (h : Reads gap s ts) : s.getLast? ≠ some '\\' := by
  induction h with
  | done => simp
  | space hc _ ih => exact getLast?_cons_space hc ih
  | token l _ hl _ ih => exact getLast?_of_lexed (Lexed.read_sound hl) ih

/-! ## Drafts -/

variable {constant : Value → Bool} {room : Nat}

theorem operandsFormed_iff {xs : List Expr} :
    operandsFormed constant room xs = true ↔ ∀ x ∈ xs, x.isFormed constant room = true := by
  induction xs with
  | nil => simp [operandsFormed]
  | cons x xs ih => simp [operandsFormed, ih]

theorem commandsFormed_iff {cs : List (List Expr)} :
    commandsFormed constant room cs = true ↔
      ∀ c ∈ cs, commandFormed c = true ∧ operandsFormed constant room c = true := by
  induction cs with
  | nil => simp [commandsFormed]
  | cons c cs ih => simp [commandsFormed, ih, and_assoc]

namespace Draft

/-- What is read so far is well formed, with at most `room` groups inside one another. -/
structure IsFormed (room : Nat) (d : Draft) : Prop where
  targets : targetsFormed d.assigns d.targets = true
  commands : ∀ c ∈ d.commands,
    commandFormed c = true ∧ operandsFormed Value.isConstant room c = true
  operands : ∀ x ∈ d.operands, x.isFormed Value.isConstant room = true

namespace IsFormed

variable {d d' : Draft}

theorem push (h : d.IsFormed room) {x : Expr} (hx : x.isFormed Value.isConstant room = true) :
    (d.push x).IsFormed room :=
  ⟨h.targets, h.commands, List.forall_mem_cons.2 ⟨hx, h.operands⟩⟩

/-- The latest operand is replaced. -/
theorem replace (h : d.IsFormed room) {x y : Expr} {es : List Expr} (heq : d.operands = x :: es)
    (hy : x.isFormed Value.isConstant room = true → y.isFormed Value.isConstant room = true) :
    { d with operands := y :: es }.IsFormed room := by
  have hoperands := h.operands
  rw [heq, List.forall_mem_cons] at hoperands
  exact ⟨h.targets, h.commands, List.forall_mem_cons.2 ⟨hy hoperands.1, hoperands.2⟩⟩

theorem pushField (h : d.IsFormed room) {name : String} (hname : isIdentifier name = true)
    {glued : Bool} (hd : d.pushField name glued = .ok d') : d'.IsFormed room := by
  unfold Draft.pushField at hd
  split at hd
  · cases hd
  · cases hd
  · next heq =>
    cases hd
    refine h.replace heq fun hx => ?_
    simp only [isFormed, Bool.and_eq_true, List.all_append] at hx ⊢
    simp [hx.2, hname]
  · next heq =>
    cases hd
    refine h.replace heq fun hx => ?_
    simp only [isFormed, Bool.and_eq_true, List.all_append] at hx ⊢
    simp [hx.1, hx.2, hname]
  · next heq =>
    cases hd
    refine h.replace heq fun hx => ?_
    simp only [isFormed, Bool.and_eq_true, List.all_append] at hx ⊢
    simpa [hname] using hx
  · cases hd
    exact h.push (by simp [isFormed, hname])

/-- A command that ends has an operand, and a constant in front of it stands alone. -/
theorem endCommand (h : d.IsFormed room) (hd : d.endCommand = .ok d') :
    d'.IsFormed room ∧ d'.commands ≠ [] := by
  have hoperands : operandsFormed Value.isConstant room d.operands.reverse = true :=
    operandsFormed_iff.2 fun x hx => h.operands x (List.mem_reverse.1 hx)
  unfold Draft.endCommand at hd
  split at hd
  · cases hd
  · cases hd
  · next c hnil hconst =>
    cases hd
    refine ⟨⟨h.targets, List.forall_mem_cons.2 ⟨⟨?_, hoperands⟩, h.commands⟩, by simp⟩, by simp⟩
    unfold commandFormed
    split
    · next heq => exact absurd heq hnil
    · next heq => exact absurd heq (hconst _ _ _)
    · rfl

theorem finish (h : d.IsFormed room) (hne : d.commands ≠ []) :
    d.finish.isFormed Value.isConstant room = true := by
  have hcommands : commandsFormed Value.isConstant room d.commands.reverse = true :=
    commandsFormed_iff.2 fun c hc => h.commands c (List.mem_reverse.1 hc)
  simp [Pipeline.isFormed, Draft.finish, h.targets, hcommands, hne]

/-- The variables in front of a pipeline. -/
theorem start {ts : List Glued} (h : ∀ t ∈ ts, t.token.IsFormed) (room : Nat) :
    (Draft.start ts).1.IsFormed room := by
  have htargets : ∀ assigns names, targetsFormed assigns names = true →
      ({ targets := names, assigns } : Draft).IsFormed room :=
    fun _ _ hnames => ⟨hnames, by simp, by simp⟩
  unfold Draft.start
  split
  all_goals
    first
      | exact htargets false [] rfl
      | simp only [List.forall_mem_cons] at h
        obtain ⟨ha, hrest⟩ := h
  · exact htargets _ _ (by simpa [targetsFormed, Token.IsFormed] using ha)
  · exact htargets _ _ (by simpa [targetsFormed, Token.IsFormed] using ha)
  · exact htargets _ _ (by simpa [targetsFormed, Token.IsFormed] using ⟨ha, hrest.2.1⟩)
  · exact htargets _ _ (by simpa [targetsFormed, Token.IsFormed] using ⟨ha, hrest.2.1⟩)

end IsFormed

end Draft

/-- Every open draft is well formed, with room for what may still be nested inside of it. -/
def StackFormed : List Draft → Prop
  | [] => True
  | d :: ds => d.IsFormed (Draft.maxDepth - ds.length) ∧ StackFormed ds

theorem stackFormed_cons {d : Draft} {ds : List Draft}
    (hd : d.IsFormed (Draft.maxDepth - ds.length)) (hds : StackFormed ds) : StackFormed (d :: ds) :=
  ⟨hd, hds⟩

theorem isFormed_wordOperand {name : String} (h : isIdentifier name = true) (room : Nat) :
    (Draft.wordOperand name).isFormed Value.isConstant room = true := by
  unfold Draft.wordOperand
  split
  · rfl
  · split
    · rfl
    · split
      · rfl
      · next htrue hfalse hnil => simp [isFormed, isConstantWord, h, htrue, hfalse, hnil]

/-- A group is well formed where there is room for it. -/
theorem isFormed_group {p : Pipeline} (h : p.isFormed Value.isConstant (room - 1) = true)
    (hroom : 0 < room) : (Expr.group p []).isFormed Value.isConstant room = true := by
  obtain ⟨targets, assigns, cs⟩ := p
  simpa [isFormed, Pipeline.isFormed, hroom, and_assoc] using h

/-- **Reading keeps the drafts well formed**, and so is the pipeline that it ends with. -/
theorem read_isFormed {p : Pipeline} {ts : List Glued} : ∀ {outer : List Draft} {d : Draft}
    {skip : Nat}, (∀ t ∈ ts, t.token.IsFormed) → StackFormed (d :: outer) →
      outer.length ≤ Draft.maxDepth → Draft.read outer d skip ts = .ok p →
      p.isFormed Value.isConstant Draft.maxDepth = true := by
  induction ts with
  | nil =>
    intro outer d skip _ hstack _ hread
    rw [Draft.read] at hread
    obtain ⟨d', hend, hread⟩ := Outcome.bind_eq_ok.1 hread
    obtain ⟨hformed, hne⟩ := hstack.1.endCommand hend
    cases outer with
    | nil =>
      cases hread
      exact hformed.finish hne
    | cons o outer => cases hread
  | cons t ts ih =>
    intro outer d skip htokens hstack hlength hread
    obtain ⟨ht, hts⟩ := List.forall_mem_cons.1 htokens
    obtain ⟨hd, houter⟩ := hstack
    have hpush : ∀ x : Expr, x.isFormed Value.isConstant (Draft.maxDepth - outer.length) = true →
        Draft.read outer (d.push x) 0 ts = .ok p → _ :=
      fun x hx => ih hts ⟨hd.push hx, houter⟩ hlength
    cases skip with
    | succ n => exact ih hts ⟨hd, houter⟩ hlength hread
    | zero =>
      obtain ⟨token, glued⟩ := t
      rw [Draft.read] at hread
      cases token with
      | pipe =>
        obtain ⟨d', hend, hread⟩ := Outcome.bind_eq_ok.1 hread
        exact ih hts ⟨(hd.endCommand hend).1, houter⟩ hlength hread
      | closeParen =>
        obtain ⟨d', hend, hread⟩ := Outcome.bind_eq_ok.1 hread
        obtain ⟨hformed, hne⟩ := hd.endCommand hend
        cases outer with
        | nil => cases hread
        | cons o outer =>
          rw [List.length_cons] at hlength hformed
          have hgroup : (Expr.group d'.finish []).isFormed Value.isConstant
              (Draft.maxDepth - outer.length) = true := by
            refine isFormed_group ?_ (by omega)
            rw [Nat.sub_sub]
            exact hformed.finish hne
          exact ih hts ⟨houter.1.push hgroup, houter.2⟩ (by omega) hread
      | openParen =>
        dsimp only at hread
        split at hread
        · cases hread
        · next hroom =>
          refine ih hts (stackFormed_cons (.start hts _) (stackFormed_cons hd houter)) ?_ hread
          rw [List.length_cons]
          omega
      | field name =>
        obtain ⟨d', hfield, hread⟩ := Outcome.bind_eq_ok.1 hread
        exact ih hts ⟨hd.pushField ht hfield, houter⟩ hlength hread
      | dot => exact hpush _ rfl hread
      | «variable» name => exact hpush _ (by simpa [isFormed, Token.IsFormed] using ht) hread
      | word name => exact hpush _ (isFormed_wordOperand ht _) hread
      | verbatim s => exact hpush _ rfl hread
      | string s => exact hpush _ rfl hread
      | int n => exact hpush (.const (.int n)) ht hread
      | float x => exact hpush _ rfl hread
      | declare => cases hread
      | assign => cases hread
      | comma => cases hread

/-- **Every pipeline that is read is well formed.** -/
theorem isFormed_of_parsePipeline {s : List Char} {p : Pipeline} (h : parsePipeline s = .ok p) :
    p.isFormed Value.isConstant Draft.maxDepth = true := by
  obtain ⟨ts, hreads, hread⟩ := parsePipeline_eq_ok_iff.1 h
  have htokens := isFormed_of_reads hreads
  have hstart := Draft.IsFormed.start htokens (Draft.maxDepth - ([] : List Draft).length)
  exact read_isFormed htokens (stackFormed_cons hstart trivial) (Nat.zero_le _) hread

/-! ## The last character of a statement -/

theorem getLast?_of_parsePipeline {s : List Char} {p : Pipeline} (h : parsePipeline s = .ok p) :
    s.getLast? ≠ some '\\' := by
  obtain ⟨ts, hreads, -⟩ := parsePipeline_eq_ok_iff.1 h
  exact getLast?_of_reads hreads

theorem getLast?_of_isBlank {s : List Char} (h : Text.isBlank s = true) :
    s.getLast? ≠ some '\\' := by
  intro hlast
  have hspace := List.all_eq_true.1 h _ (List.mem_of_getLast? hlast)
  cases hspace

theorem getLast?_of_next {s rest : List Char} {l : Lexeme} {offset : UInt32}
    (h : Lexeme.next offset s = .ok (some (l, rest))) (hrest : rest.getLast? ≠ some '\\') :
    s.getLast? ≠ some '\\' := by
  induction s generalizing offset with
  | nil => cases h
  | cons c s ih =>
    cases hc : Text.isSpace c with
    | true =>
      rw [Lexeme.next_space hc] at h
      exact getLast?_cons_space hc (ih h)
    | false =>
      rw [Lexeme.next_cons hc] at h
      cases hl : Lexed.read c s with
      | error e =>
        rw [hl] at h
        cases h
      | ok l' =>
        rw [hl] at h
        cases h
        exact getLast?_of_lexed (Lexed.read_sound hl) hrest

/-- What a call of another template consists of: the word, the name and a pipeline or nothing. -/
theorem parseTemplateCall_cases {s : List Char} {call : TemplateCall}
    (h : parseTemplateCall s = .ok (some call)) :
    ∃ l s' l' rest, Lexeme.next 0 s = .ok (some (l, s')) ∧
      Lexeme.next 0 s' = .ok (some (l', rest)) ∧
        (Text.isBlank rest = true ∨ ∃ p, parsePipeline rest = .ok p) := by
  have hbehind : ∀ (name : String) (rest : List Char),
      (if Text.isBlank rest = true then (pure (some { name, pipeline := none }) : Outcome _)
        else parsePipeline rest >>= fun p => pure (some { name, pipeline := some p })) =
        .ok (some call) → Text.isBlank rest = true ∨ ∃ p, parsePipeline rest = .ok p := by
    intro name rest hrest
    by_cases hblank : Text.isBlank rest = true
    · exact .inl hblank
    · rw [if_neg hblank] at hrest
      obtain ⟨p, hp, -⟩ := Outcome.bind_eq_ok.1 hrest
      exact .inr ⟨p, hp⟩
  unfold parseTemplateCall at h
  obtain ⟨o, hnext, h⟩ := Outcome.bind_eq_ok.1 h
  split at h
  · next start stop s' =>
    obtain ⟨o', hnext', h⟩ := Outcome.bind_eq_ok.1 h
    split at h
    · next name _ _ rest => exact ⟨_, s', _, rest, hnext, hnext', hbehind name rest h⟩
    · next name _ _ rest => exact ⟨_, s', _, rest, hnext, hnext', hbehind name rest h⟩
    · cases h
    · cases h
  · cases h

/-- Neither a pipeline nor a call of another template ends in a backslash. -/
theorem getLast?_of_parseTemplateCall {s : List Char} {call : TemplateCall}
    (h : parseTemplateCall s = .ok (some call)) : s.getLast? ≠ some '\\' := by
  obtain ⟨l, s', l', rest, hnext, hnext', hrest⟩ := parseTemplateCall_cases h
  refine getLast?_of_next hnext (getLast?_of_next hnext' ?_)
  rcases hrest with hblank | ⟨p, hp⟩
  · exact getLast?_of_isBlank hblank
  · exact getLast?_of_parsePipeline hp

end Stencil
